import ProgPowMiner.Stratum.Link
import ProgPowMiner.Stratum.Target

/-!
# What every reachable state of the client keeps

Over every run of `Link.lean` from a session in range that is neither connected nor waiting for
a response:

* `watchdogs_never_lost`: a connected client has its work timer waiting or its expiry queued,
  and a client waiting for a response has its response timer waiting or its expiry queued;
* `difficulty_target_defined`: `m_nextWorkDifficulty` stays at least `0.0001`, so the target of
  every reachable state is defined and brackets the difficulty;
* `notified_package_fields`: on an ethereum-stratum connection every package delivered has that
  target as its boundary and a start nonce that fills only the extranonce's top bits.

`Session.Keeps` is what every handler may do to the session (`processReponse_spec`, one case
per `id` and method), `Link.Calm` adds that no queued handler is dropped, and `Link.Guarded` is
the invariant of a link.
-/

namespace ProgPowMiner.Stratum

/-- The numbers of the session its handlers keep in range. -/
structure SessionInv (s : Session) : Prop where
  difficulty : 1 / 10000 ≤ s.nextWorkDifficulty.val
  extraNonce_lt : s.extraNonce < 2 ^ 64
  extraNonce_low : s.extraNonceHexSize ≤ 16 →
    s.extraNonce % 2 ^ (64 - 4 * s.extraNonceHexSize) = 0

/-- `s'` follows `s` in range, and no watchdog is lost: when `s'` is connected its work timer
waits, or `s` was connected and the timer has not stopped; the same for a pending response and
the response timer. -/
structure Session.Keeps (s s' : Session) : Prop where
  work : s'.connected = true → s'.workTimer = true ∨
    s.connected = true ∧ (s.workTimer = true → s'.workTimer = true)
  response : s'.responsePending = true → s'.responseTimer = true ∨
    s.responsePending = true ∧ (s.responseTimer = true → s'.responseTimer = true)
  inv : SessionInv s → SessionInv s'

theorem Session.Keeps.refl (s : Session) : s.Keeps s :=
  ⟨fun h => .inr ⟨h, id⟩, fun h => .inr ⟨h, id⟩, id⟩

theorem Session.Keeps.trans {s₁ s₂ s₃ : Session} (h₁ : s₁.Keeps s₂) (h₂ : s₂.Keeps s₃) :
    s₁.Keeps s₃ where
  work h := (h₂.work h).elim .inl fun ⟨hc, hw⟩ =>
    (h₁.work hc).elim (fun h => .inl (hw h)) fun ⟨hc', hw'⟩ => .inr ⟨hc', hw ∘ hw'⟩
  response h := (h₂.response h).elim .inl fun ⟨hc, hw⟩ =>
    (h₁.response hc).elim (fun h => .inl (hw h)) fun ⟨hc', hw'⟩ => .inr ⟨hc', hw ∘ hw'⟩
  inv := h₂.inv ∘ h₁.inv

theorem Session.Keeps.of_frame {s s' : Session} (hc : s'.connected = s.connected)
    (hw : s.workTimer = true → s'.workTimer = true) (hp : s'.responsePending = s.responsePending)
    (ht : s'.responseTimer = s.responseTimer) (hd : s'.nextWorkDifficulty = s.nextWorkDifficulty)
    (he : s'.extraNonce = s.extraNonce) (hs : s'.extraNonceHexSize = s.extraNonceHexSize) :
    s.Keeps s' where
  work h := .inr ⟨hc ▸ h, hw⟩
  response h := .inr ⟨hp ▸ h, fun h => ht ▸ h⟩
  inv h := ⟨hd ▸ h.difficulty, he ▸ h.extraNonce_lt, hs ▸ he ▸ h.extraNonce_low⟩

/-- `s'` is connected only if `s` was, and then is authorized if `s` was: what a reply of the
pool may do to `m_connected` and `m_authorized`. -/
def Session.KeepsLogin (s s' : Session) : Prop :=
  s'.connected = true → s.connected = true ∧ (s.authorized = true → s'.authorized = true)

theorem Session.KeepsLogin.of_eq {s s' : Session} (hc : s'.connected = s.connected)
    (ha : s'.authorized = s.authorized) : s.KeepsLogin s' :=
  fun h => ⟨hc ▸ h, fun h => ha ▸ h⟩

theorem Session.KeepsLogin.trans {s₁ s₂ s₃ : Session} (h₁ : s₁.KeepsLogin s₂)
    (h₂ : s₂.KeepsLogin s₃) : s₁.KeepsLogin s₃ := fun h =>
  let ⟨hc, ha⟩ := h₂ h
  let ⟨hc', ha'⟩ := h₁ hc
  ⟨hc', ha ∘ ha'⟩

/-! ### The handlers -/

theorem Session.keeps_disconnect (s : Session) : s.Keeps s.disconnect.1 :=
  ⟨fun h => (by cases h), fun h => (by cases h), fun h => ⟨h.1, h.2, h.3⟩⟩

theorem Session.keeps_connectHandler (conn : Connection) (s : Session) :
    s.Keeps (s.connectHandler conn) := by
  unfold Session.connectHandler
  split <;> exact ⟨fun _ => .inl rfl, fun h => .inr ⟨h, id⟩, fun h => ⟨h.1, h.2, h.3⟩⟩

theorem Session.keeps_submitSolution (conn : Connection) {s s' : Session} {sol : Solution}
    {effs : List Effect} (h : s.submitSolution conn sol = .ok (s', effs)) : s.Keeps s' := by
  simp only [Session.submitSolution, bind_eq_ok, pure_eq_ok, Prod.mk.injEq] at h
  obtain ⟨_, -, rfl, rfl⟩ := h
  exact ⟨fun h => .inr ⟨h, id⟩, fun _ => .inl rfl, fun h => ⟨h.1, h.2, h.3⟩⟩

theorem Session.keeps_processExtranonce {s s' : Session} {E : List Char}
    (h : s.processExtranonce E = .ok s') : s.Keeps s' := by
  simp only [Session.processExtranonce] at h
  split at h
  · rename_i v hv
    cases h
    refine ⟨fun h => .inr ⟨h, id⟩, fun h => .inr ⟨h, id⟩,
      fun hs => ⟨hs.difficulty, (fixedHash?_lt hv).trans_eq (by norm_num), fun hL => ?_⟩⟩
    dsimp only at hL ⊢
    have hlen : (E ++ List.replicate (16 - E.length) '0').length = 2 * 8 := by simp; omega
    by_cases hx : (E ++ List.replicate (16 - E.length) '0').take 2 = ['0', 'x']
    · rw [fixedHash?_prefixed_zero hlen hx hv]
      rfl
    · have hval := fixedHash?_even hlen hx hv
      rw [hexValue?_append_zeros] at hval
      obtain ⟨u, -, rfl⟩ := Option.map_eq_some'.mp hval
      rw [show (16 : Nat) ^ (16 - E.length) = 2 ^ (64 - 4 * E.length) by
        rw [show (16 : Nat) = 2 ^ 4 from rfl, ← Nat.pow_mul]; congr 1; omega]
      exact Nat.mul_mod_left _ _
  · cases h

theorem Session.processExtranonce_frame {s s' : Session} {E : List Char}
    (h : s.processExtranonce E = .ok s') :
    ∃ n v, s' = { s with extraNonceHexSize := n, extraNonce := v } := by
  simp only [Session.processExtranonce] at h
  split at h
  · cases h; exact ⟨_, _, rfl⟩
  · cases h

variable (conn : Connection) (toEpoch : Nat → Except Throw Int) (version : String)
  (parse : String → Option Json)

/-- Every package among `effs` was built from the difficulty and the extranonce of `s`: its
boundary is the target of `m_nextWorkDifficulty`, its start nonce `m_extraNonce` and its
`exSizeBits` four times `m_extraNonceHexSize`. -/
def Session.Delivers (s : Session) (effs : List Effect) : Prop :=
  ∀ w, Effect.workReceived w ∈ effs → diffToTarget s.nextWorkDifficulty = .ok w.boundary ∧
    w.startNonce = s.extraNonce ∧ w.exSizeBits = 4 * s.extraNonceHexSize

theorem Session.Delivers.of_none {s : Session} {effs : List Effect}
    (h : ∀ w, Effect.workReceived w ∉ effs) : s.Delivers effs :=
  fun w hw => absurd hw (h w)

def Effect.isCallback : Effect → Bool
  | .accepted _ | .rejected _ => true
  | _ => false

/-- What a reply does to `m_stale` and `m_response_pending`: the answer to a submission calls back
with `m_stale`, a refused authorisation disconnects, and any other reply calls no callback,
keeps the pending flag, and sets `m_stale` when it is a `mining.notify` (`notify`) that arrives
while a response is pending. -/
inductive Session.Settles (notify : Bool) (s : Session) : Session → List Effect → Prop
  | answer (s' : Session) (b : Bool) (hn : notify = false) :
      Settles notify s s' [if b then .accepted s.stale else .rejected s.stale]
  | disconnect (s' : Session) : Settles notify s s' [.disconnected]
  | quiet (s' : Session) (effs : List Effect)
      (hs : s'.stale = (s.stale || s.responsePending && notify))
      (hp : s'.responsePending = s.responsePending) (he : ∀ e ∈ effs, e.isCallback = false) :
      Settles notify s s' effs

theorem Session.Settles.keep {notify : Bool} {s s' : Session} {effs : List Effect}
    (hn : notify = false) (hs : s'.stale = s.stale) (hp : s'.responsePending = s.responsePending)
    (he : ∀ e ∈ effs, e.isCallback = false) : s.Settles notify s' effs :=
  .quiet s' effs (by simp [hs, hn]) hp he

theorem Session.notifyEthereumStratum_spec {s s' : Session} {params : Json} {job : String}
    {effs : List Effect} (h : s.notifyEthereumStratum toEpoch params job = .ok (s', effs)) :
    s.Keeps s' ∧ s.Delivers effs ∧ s.KeepsLogin s' ∧ Effect.disconnected ∉ effs ∧
      s'.stale = s.stale ∧ s'.responsePending = s.responsePending ∧
      ∀ e ∈ effs, e.isCallback = false := by
  have hf := (Session.notifyEthereumStratum_work toEpoch h).2.2
  simp only [Session.notifyEthereumStratum, bind_eq_ok] at h
  obtain ⟨_, -, _, -, _, -, h⟩ := h
  split_ifs at h
  · simp only [bind_eq_ok, pure_eq_ok, Prod.mk.injEq] at h
    obtain ⟨_, -, _, -, _, -, b, hb, _, -, rfl, rfl⟩ := h
    refine ⟨.of_frame rfl (fun _ => rfl) rfl rfl rfl rfl rfl, fun w hw => ⟨?_, hf w hw⟩,
      .of_eq rfl rfl, by simp, rfl, rfl, by simp [Effect.isCallback]⟩
    rw [List.mem_singleton, Effect.workReceived.injEq] at hw
    exact hw ▸ hb
  · simp only [pure_eq_ok, Prod.mk.injEq] at h
    obtain ⟨rfl, rfl⟩ := h
    exact ⟨.refl _, .of_none (by simp), .of_eq rfl rfl, by simp, rfl, rfl, by simp⟩

theorem Session.notifyStratum_spec {s s' : Session} {params : Json} {index : Nat} {job : String}
    {effs : List Effect} (h : s.notifyStratum toEpoch params index job = .ok (s', effs)) :
    s.Keeps s' ∧ s.KeepsLogin s' ∧ Effect.disconnected ∉ effs ∧ s'.stale = s.stale ∧
      s'.responsePending = s.responsePending ∧ ∀ e ∈ effs, e.isCallback = false := by
  simp only [Session.notifyStratum, bind_eq_ok] at h
  obtain ⟨_, -, _, -, _, -, _, -, _, -, h⟩ := h
  split_ifs at h
  · simp only [bind_eq_ok] at h
    obtain ⟨_, -, h⟩ := h
    split_ifs at h
    · simp only [bind_eq_ok, pure_eq_ok, Prod.mk.injEq] at h
      obtain ⟨_, -, _, -, _, -, _, -, rfl, rfl⟩ := h
      exact ⟨.of_frame rfl (fun _ => rfl) rfl rfl rfl rfl rfl, .of_eq rfl rfl, by simp, rfl, rfl,
        by simp [Effect.isCallback]⟩
    · simp only [pure_eq_ok, Prod.mk.injEq] at h
      obtain ⟨rfl, rfl⟩ := h
      exact ⟨.refl _, .of_eq rfl rfl, by simp, rfl, rfl, by simp⟩
  · simp only [pure_eq_ok, Prod.mk.injEq] at h
    obtain ⟨rfl, rfl⟩ := h
    exact ⟨.refl _, .of_eq rfl rfl, by simp, rfl, rfl, by simp⟩

/-- What a reply of the pool does to the client: it keeps the session (`Session.Keeps`) and the
login (`Session.KeepsLogin`), on an ethereum-stratum connection every package it delivers is
built from the session (`Session.Delivers`), a reply that disconnects does nothing else and
leaves the session unconnected, and it settles the response flags (`Session.Settles`). -/
structure Session.Reply (conn : Connection) (notify : Bool) (s s' : Session) (effs : List Effect) :
    Prop where
  keeps : s.Keeps s'
  delivers : conn.version = .ethereumStratum → s.Delivers effs
  login : s.KeepsLogin s'
  disconnects : Effect.disconnected ∈ effs → effs = [.disconnected] ∧ s'.connected = false
  settles : s.Settles notify s' effs

theorem Session.Reply.quiet {conn : Connection} {notify : Bool} {s s' : Session}
    {effs : List Effect} (hk : s.Keeps s') (hl : s.KeepsLogin s')
    (hw : ∀ w, Effect.workReceived w ∉ effs) (hd : Effect.disconnected ∉ effs)
    (hs : s.Settles notify s' effs) : s.Reply conn notify s' effs :=
  ⟨hk, fun _ => .of_none hw, hl, fun h => absurd h hd, hs⟩

theorem ok_of_joinPoint {α γ β : Type} {c : Prop} [Decidable c] {x : Except Throw γ} {f : γ → α}
    {a : α} {jp : α → Except Throw β} {r : β}
    (h : (if c then x >>= fun l => pure (f l) >>= jp else pure a >>= jp) = .ok r) :
    ∃ t, jp t = .ok r := by
  split at h
  · obtain ⟨l, -, h⟩ := bind_eq_ok.mp h
    exact ⟨f l, h⟩
  · exact ⟨a, h⟩

/-- `ok_of_joinPoint`, keeping which branch gave the join point its argument. -/
theorem ok_of_joinPoint_cases {α γ β : Type} {c : Prop} [Decidable c] {x : Except Throw γ}
    {f : γ → α} {a : α} {jp : α → Except Throw β} {r : β}
    (h : (if c then x >>= fun l => pure (f l) >>= jp else pure a >>= jp) = .ok r) :
    ∃ t, (c → ∃ l, x = .ok l ∧ f l = t) ∧ (¬c → a = t) ∧ jp t = .ok r := by
  split at h
  · obtain ⟨l, hl, h⟩ := bind_eq_ok.mp h
    exact ⟨f l, fun _ => ⟨l, hl, rfl⟩, fun hc => absurd ‹c› hc, h⟩
  · exact ⟨a, fun hc => absurd hc ‹¬c›, fun _ => rfl, h⟩

/-- Every branch of `processReponse` keeps the session in range and loses no watchdog: the
subscription response sets the difficulty to 1 and may take an extranonce, a refused
authorisation disconnects, the answer to a submission clears the response flags with the timer
and calls back with `m_stale`, `mining.set_difficulty` clamps at `0.0001`, and a `mining.notify`
marks `m_stale` while a response is pending. On an ethereum-stratum connection the only package
delivered is the one of `mining.notify`, built from the session. No reply connects, and only a
refused authorisation clears `m_authorized`, with a `disconnect()` and nothing else. -/
theorem Session.processReponse_spec {s s' : Session} {o : Json} {effs : List Effect}
    (h : s.processReponse conn toEpoch version o = .ok (s', effs)) :
    s.Reply conn (o.isNotify conn) s' effs := by
  unfold Session.processReponse at h
  obtain ⟨⟨⟩, h⟩ := ok_of_joinPoint h
  obtain ⟨n, hn, h⟩ := bind_eq_ok.mp h
  have hid : n ∈ [1, 2, 3, 4] → o.isNotify conn = false := fun hm => by
    simp [Json.isNotify, hn, hm]
  split at h
  · -- `id` 1: the subscription response, by dialect
    have hn1 := hid (by simp)
    have h1 : s.Keeps { s with nextWorkDifficulty := 1 } :=
      ⟨fun h => .inr ⟨h, id⟩, fun h => .inr ⟨h, id⟩,
        fun h => ⟨by norm_num, h.extraNonce_lt, h.extraNonce_low⟩⟩
    rcases conn with ⟨_ | _ | _, user, pass⟩ <;>
      simp only [ne_eq, reduceCtorEq, not_false_eq_true, not_true_eq_false, ↓reduceIte, bind_eq_ok,
        pure_bind, pure_eq_ok, Prod.mk.injEq] at h
    · obtain ⟨rfl, rfl⟩ := h
      exact .quiet (.refl _) (.of_eq rfl rfl) (by simp) (by simp)
        (.keep hn1 rfl rfl (by simp [Effect.isCallback]))
    · obtain ⟨rfl, rfl⟩ := h
      exact .quiet (.of_frame rfl id rfl rfl rfl rfl rfl) (fun h => ⟨h, fun _ => rfl⟩) (by simp)
        (by simp) (.keep hn1 rfl rfl (by simp [Effect.isCallback]))
    · split_ifs at h <;> simp only [bind_eq_ok, pure_eq_ok, Prod.mk.injEq] at h
      · obtain ⟨_, -, t, ht, rfl, rfl⟩ := h
        have hk := h1.trans (Session.keeps_processExtranonce ht)
        obtain ⟨_, _, rfl⟩ := Session.processExtranonce_frame ht
        exact .quiet hk (.of_eq rfl rfl) (by simp) (by simp)
          (.keep hn1 rfl rfl (by simp [Effect.isCallback]))
      · obtain ⟨rfl, rfl⟩ := h
        exact .quiet h1 (.of_eq rfl rfl) (by simp) (by simp)
          (.keep hn1 rfl rfl (by simp [Effect.isCallback]))
  · -- `id` 2
    obtain ⟨rfl, rfl⟩ := Prod.mk.inj (pure_eq_ok.mp h)
    exact .quiet (.refl _) (.of_eq rfl rfl) (by simp) (by simp)
      (.keep (hid (by simp)) rfl rfl (by simp))
  · -- `id` 3: the authorisation
    obtain ⟨a, -, h⟩ := bind_eq_ok.mp h
    split_ifs at h with ha <;> obtain ⟨rfl, rfl⟩ := Prod.mk.inj (pure_eq_ok.mp h)
    · exact ⟨(Session.Keeps.of_frame rfl id rfl rfl rfl rfl rfl).trans (Session.keeps_disconnect _),
        fun _ => .of_none (by simp [Session.disconnect]), fun h => (by cases h),
        fun _ => ⟨rfl, rfl⟩, .disconnect _⟩
    · exact .quiet (.of_frame rfl id rfl rfl rfl rfl rfl) (fun h => ⟨h, fun _ => by simpa using ha⟩)
        (by simp) (by simp) (.keep (hid (by simp)) rfl rfl (by simp))
  · -- `id` 4: the answer to a submission, called back with `m_stale`
    obtain ⟨_, -, h⟩ := bind_eq_ok.mp h
    have hk : s.Keeps { s with responseTimer := false, responsePending := false } :=
      ⟨fun h => .inr ⟨h, id⟩, fun h => (by cases h), fun h => ⟨h.1, h.2, h.3⟩⟩
    split_ifs at h <;> obtain ⟨rfl, rfl⟩ := Prod.mk.inj (pure_eq_ok.mp h)
    · exact .quiet hk (.of_eq rfl rfl) (by simp) (by simp) (.answer _ true (hid (by simp)))
    · exact .quiet hk (.of_eq rfl rfl) (by simp) (by simp) (.answer _ false (hid (by simp)))
  · -- notifications and requests of the pool: `hnot` reads the dialect's method
    rename_i hn1 hn2 hn3 hn4
    obtain ⟨⟨method, workattr, index⟩, hc₁, hc₂, h⟩ := ok_of_joinPoint_cases h
    have hnot : o.isNotify conn =
        (method == "mining.notify" && (o.getKey workattr .null).isArray) := by
      have hid : n ∉ [1, 2, 3, 4] := by simpa using ⟨hn1, hn2, hn3, hn4⟩
      by_cases hv : conn.version = .ethproxy
      · cases hc₂ (not_not.mpr hv)
        simp [Json.isNotify, hn, hid, hv]
      · obtain ⟨m, hm, ht⟩ := hc₁ hv
        cases ht
        simp [Json.isNotify, hn, hid, hv, hm, beq_eq_false_iff_ne.mpr hv]
    dsimp only at h
    split at h
    · -- `mining.notify`: the stale mark, then the dialect's handler
      split at h
      · obtain ⟨job, -, h⟩ := bind_eq_ok.mp h
        have hst : s.Keeps (if s.responsePending = true then { s with stale := true } else s) ∧
            (∀ effs, (if s.responsePending = true then { s with stale := true } else s).Delivers
              effs → s.Delivers effs) ∧
            s.KeepsLogin (if s.responsePending = true then { s with stale := true } else s) ∧
            (if s.responsePending = true then { s with stale := true } else s).stale =
              (s.stale || s.responsePending && o.isNotify conn) ∧
            (if s.responsePending = true then { s with stale := true } else s).responsePending =
              s.responsePending := by
          split_ifs with hp
          · exact ⟨.of_frame rfl id rfl rfl rfl rfl rfl, fun _ => id, .of_eq rfl rfl,
              by simp [hp, hnot, *], rfl⟩
          · exact ⟨.refl _, fun _ => id, .of_eq rfl rfl, by simp [hp], rfl⟩
        split at h
        · obtain ⟨hk, hd, hl, hx, h1, h2, h3⟩ := Session.notifyEthereumStratum_spec toEpoch h
          exact ⟨hst.1.trans hk, fun _ => hst.2.1 _ hd, hst.2.2.1.trans hl, fun h => absurd h hx,
            .quiet _ _ (h1.trans hst.2.2.2.1) (h2.trans hst.2.2.2.2) h3⟩
        · obtain ⟨hk, hl, hx, h1, h2, h3⟩ := Session.notifyStratum_spec toEpoch h
          exact ⟨hst.1.trans hk, fun hv => absurd hv ‹_›, hst.2.2.1.trans hl, fun h => absurd h hx,
            .quiet _ _ (h1.trans hst.2.2.2.1) (h2.trans hst.2.2.2.2) h3⟩
      · obtain ⟨rfl, rfl⟩ := Prod.mk.inj (pure_eq_ok.mp h)
        exact .quiet (.refl _) (.of_eq rfl rfl) (by simp) (by simp)
          (.keep (by simp [hnot, *]) rfl rfl (by simp))
    have hq : o.isNotify conn = false := by simp [hnot, *]
    split at h
    · -- `mining.set_difficulty`: clamped at `0.0001`
      split at h
      · obtain ⟨d, -, h⟩ := bind_eq_ok.mp h
        obtain ⟨rfl, rfl⟩ := Prod.mk.inj (pure_eq_ok.mp h)
        refine .quiet ⟨fun h => .inr ⟨h, id⟩, fun h => .inr ⟨h, id⟩, fun h => ⟨?_, h.2, h.3⟩⟩
          (.of_eq rfl rfl) (by simp) (by simp) (.keep hq rfl rfl (by simp))
        dsimp only
        split_ifs with hd
        · exact le_roundDouble_floor
        · exact le_roundDouble_floor.trans (not_le.mp hd).le
      · obtain ⟨rfl, rfl⟩ := Prod.mk.inj (pure_eq_ok.mp h)
        exact .quiet (.refl _) (.of_eq rfl rfl) (by simp) (by simp) (.keep hq rfl rfl (by simp))
    split at h
    · -- `mining.set_extranonce`
      split at h
      · obtain ⟨_, -, h⟩ := bind_eq_ok.mp h
        obtain ⟨t, ht, h⟩ := bind_eq_ok.mp h
        obtain ⟨rfl, rfl⟩ := Prod.mk.inj (pure_eq_ok.mp h)
        have hk := Session.keeps_processExtranonce ht
        obtain ⟨_, _, rfl⟩ := Session.processExtranonce_frame ht
        exact .quiet hk (.of_eq rfl rfl) (by simp) (by simp) (.keep hq rfl rfl (by simp))
      · obtain ⟨rfl, rfl⟩ := Prod.mk.inj (pure_eq_ok.mp h)
        exact .quiet (.refl _) (.of_eq rfl rfl) (by simp) (by simp) (.keep hq rfl rfl (by simp))
    -- `client.get_version` and the rest leave the session as it is
    split at h <;> obtain ⟨rfl, rfl⟩ := Prod.mk.inj (pure_eq_ok.mp h) <;>
      exact .quiet (.refl _) (.of_eq rfl rfl) (by simp) (by simp)
        (.keep hq rfl rfl (by simp [Effect.isCallback]))

theorem Session.readResponse_spec {s s' : Session} {line : String} {effs : List Effect}
    (h : s.readResponse conn toEpoch version parse line = .ok (s', effs)) :
    s.Reply conn ((readMessage parse line).any (Json.isNotify conn)) s' effs := by
  unfold Session.readResponse at h
  unfold readMessage
  split_ifs at h ⊢
  · split at h
    · rename_i hp
      rw [hp]
      exact Session.processReponse_spec conn toEpoch version h
    · rename_i hp
      obtain ⟨rfl, rfl⟩ := Prod.mk.inj (Except.ok.inj h)
      exact .quiet (.refl _) (.of_eq rfl rfl) (by simp) (by simp)
        (.keep (by simp [hp]) rfl rfl (by simp))
  · obtain ⟨rfl, rfl⟩ := Prod.mk.inj (Except.ok.inj h)
    exact .quiet (.refl _) (.of_eq rfl rfl) (by simp) (by simp) (.keep rfl rfl rfl (by simp))

/-! ### The transport -/

/-- `l'` follows `l` with the session kept (`Session.Keeps`) and no queued handler dropped. -/
structure Link.Calm (l l' : Link) : Prop where
  session : l.session.Keeps l'.session
  queue : l.queue ⊆ l'.queue

theorem Link.Calm.refl (l : Link) : l.Calm l := ⟨.refl _, List.Subset.refl _⟩

theorem Link.Calm.trans {l₁ l₂ l₃ : Link} (h₁ : l₁.Calm l₂) (h₂ : l₂.Calm l₃) : l₁.Calm l₃ :=
  ⟨h₁.session.trans h₂.session, h₁.queue.trans h₂.queue⟩

theorem Link.Calm.of_transport {l l' : Link} (hs : l'.session = l.session)
    (hq : l.queue ⊆ l'.queue) : l.Calm l' :=
  ⟨hs ▸ .refl _, hq⟩

theorem Link.Calm.of_same {l l' : Link} (hs : l'.session = l.session) (hq : l'.queue = l.queue) :
    l.Calm l' :=
  .of_transport hs (hq ▸ List.Subset.refl _)

theorem Link.calm_session (l : Link) {s : Session} (h : l.session.Keeps s) :
    l.Calm { l with session := s } :=
  ⟨h, List.Subset.refl _⟩

theorem Link.calm_reply (l : Link) {s : Session} (h : l.session.Keeps s) (o : List Bool) :
    l.Calm { l with session := s, outstanding := o } :=
  ⟨h, List.Subset.refl _⟩

theorem Link.calm_fault (l : Link) (p : Ptr) : l.Calm (l.fault p) := .of_same rfl rfl

theorem Link.calm_close (l : Link) (g : Nat) : l.Calm (l.close g) :=
  .of_transport rfl (List.subset_append_left _ _)

theorem Link.calm_append (l : Link) (text : String) : l.Calm (l.append text) := .of_same rfl rfl

theorem Link.calm_consume (l : Link) (n : Nat) : l.Calm (l.consume n) := .of_same rfl rfl

theorem Link.calm_asyncWrite (l : Link) (b : Bool) : l.Calm (l.asyncWrite b) := by
  unfold Link.asyncWrite; split <;> exact .of_same rfl rfl

theorem Link.calm_readline (l : Link) : l.Calm l.readline := by
  unfold Link.readline Link.startRead
  split
  · split
    · split
      · exact .of_transport rfl (List.subset_append_left _ _)
      · exact .of_same rfl rfl
    · exact calm_fault _ _
  · exact .refl l

theorem Link.calm_useSecure (l : Link) : l.Calm l.useSecure := by
  unfold Link.useSecure; split
  · exact calm_fault _ _
  · exact .refl l

theorem Link.teardown_session (l : Link) : l.teardown.session = l.session := by
  unfold Link.teardown Link.release Link.closeSocket Link.useSecure
  split <;> split <;> split <;> rfl

theorem Link.calm_teardown (l : Link) : l.Calm l.teardown := by
  have h₂ : ∀ l' : Link, l'.Calm l'.closeSocket := fun l' => by
    unfold Link.closeSocket; split
    · exact calm_close _ _
    · exact calm_fault _ _
  have h₃ : ∀ l' : Link, l'.Calm l'.release := fun l' => by
    unfold Link.release; split <;> exact .of_same rfl rfl
  exact (calm_useSecure l).trans ((h₂ _).trans (h₃ _))

theorem Link.calm_disconnect (l : Link) : l.Calm l.disconnect :=
  (l.calm_session (Session.keeps_disconnect _)).trans (calm_teardown _)

theorem Link.calm_applyEffects (l : Link) (effs : List Effect) : l.Calm (l.applyEffects effs) := by
  induction effs generalizing l with
  | nil => exact .refl l
  | cons e effs ih =>
    refine Calm.trans ?_ (ih (l.applyEffect e))
    cases e with
    | append line => exact calm_append l line
    | write => exact calm_asyncWrite l false
    | accepted b | rejected b => exact .of_same rfl rfl
    | disconnected => exact calm_teardown l
    | _ => exact .refl l

theorem Link.calm_connect (l : Link) (tls : Bool) : l.Calm (l.connect tls) := by
  have h₁ : l.Calm (l.releaseOld tls) := by
    unfold Link.releaseOld; split
    · exact calm_close _ _
    · exact .refl l
  have h₂ : ∀ s : Session, s.Keeps { s with authorized := false, connected := false } := fun _ =>
    ⟨fun h => (by cases h), fun h => .inr ⟨h, id⟩, fun h => ⟨h.1, h.2, h.3⟩⟩
  have h₃ : ∀ l' : Link, l'.Calm l'.runService := fun l' => by
    unfold Link.runService; split <;> exact .of_same rfl rfl
  refine h₁.trans (Calm.trans ?_ (h₃ _))
  exact ⟨h₂ _, List.Subset.refl _⟩

variable (submitHashrate : Bool)

theorem Link.calm_afterLine (l : Link) (line : String) :
    l.Calm (l.afterLine conn toEpoch version parse line) := by
  unfold Link.afterLine
  split
  · rename_i s effs h
    refine ((l.calm_reply (Session.readResponse_spec conn toEpoch version parse h).keeps
      (l.markStale conn parse line)).trans (calm_applyEffects _ effs)).trans ?_
    dsimp only
    split
    · exact calm_readline _
    · exact .refl _
  · exact .of_same rfl rfl

theorem Link.calm_handle (l : Link) :
    ∀ hd : Handler, l.Calm (l.handle conn toEpoch version parse hd)
  | .resolve true => by
    dsimp only [Link.handle]
    split
    · exact .of_same rfl rfl
    · exact calm_fault _ _
  | .resolve false | .connect false | .workTimeout true | .responseTimeout true => calm_disconnect l
  | .connect true =>
    (l.calm_session (Session.keeps_connectHandler conn _)).trans
      ((calm_useSecure _).trans ((calm_append _ _).trans (calm_asyncWrite _ false)))
  | .write true false n => (calm_consume l n).trans (calm_readline _)
  | .write true true n | .write false _ n => calm_consume l n
  | .workTimeout false | .responseTimeout false | .hashrate false => .refl l
  | .read true => by
    dsimp only [Link.handle]
    refine Calm.trans ?_ (calm_afterLine _ _ _ _ _ _)
    exact .of_same rfl rfl
  | .read false => by
    dsimp only [Link.handle]
    split
    · refine Calm.trans ?_ (calm_disconnect _)
      exact .of_same rfl rfl
    · exact .of_same rfl rfl
  | .hashrate true => by
    dsimp only [Link.handle]
    split
    · exact .refl l
    · exact (calm_append l _).trans (calm_asyncWrite _ true)

/-! ### The invariant of every reachable link -/

/-- The session in range, and each watchdog that guards waiting or its expiry queued. -/
structure Link.Guarded (l : Link) : Prop where
  inv : SessionInv l.session
  work : l.session.connected = true →
    l.session.workTimer = true ∨ Handler.workTimeout true ∈ l.queue
  response : l.session.responsePending = true →
    l.session.responseTimer = true ∨ Handler.responseTimeout true ∈ l.queue

theorem Link.Guarded.initial {s : Session} (hs : SessionInv s) (hc : s.connected = false)
    (hp : s.responsePending = false) : (Link.initial s).Guarded :=
  ⟨hs, fun h => absurd (hc ▸ h) Bool.false_ne_true, fun h => absurd (hp ▸ h) Bool.false_ne_true⟩

theorem Link.Guarded.calm {l l' : Link} (h : l.Guarded) (hc : l.Calm l') : l'.Guarded where
  inv := hc.session.inv h.inv
  work hw := (hc.session.work hw).elim .inl fun ⟨hw₀, ht⟩ =>
    (h.work hw₀).elim (fun h => .inl (ht h)) fun h => .inr (hc.queue h)
  response hp := (hc.session.response hp).elim .inl fun ⟨hp₀, ht⟩ =>
    (h.response hp₀).elim (fun h => .inl (ht h)) fun h => .inr (hc.queue h)

theorem Link.guarded_disconnect {l : Link} (h : SessionInv l.session) : l.disconnect.Guarded := by
  have hs : l.disconnect.session = l.session.disconnect.1 := teardown_session _
  refine ⟨hs ▸ ⟨h.1, h.2, h.3⟩, fun hc => absurd hc ?_, fun hp => absurd hp ?_⟩ <;>
    simp [hs, Session.disconnect]

/-- The reactor runs the `k`-th queued handler. An expiry handler disconnects; any other leaves
both expiry handlers queued as they were. -/
theorem Link.Guarded.deliver {l : Link} (h : l.Guarded) {k : Nat} {hd : Handler}
    (hk : l.queue[k]? = some hd) :
    (({ l with queue := l.queue.eraseIdx k } : Link).handle conn toEpoch version parse
      hd).Guarded := by
  have hkeep : ∀ {x}, x ≠ hd → x ∈ l.queue → x ∈ l.queue.eraseIdx k := fun hne hx => by
    obtain ⟨i, hi⟩ := List.mem_iff_getElem?.mp hx
    refine List.mem_eraseIdx_iff_getElem?.mpr ⟨i, fun hik => hne ?_, hi⟩
    subst hik
    exact Option.some.inj (hi.symm.trans hk)
  by_cases hw : hd = .workTimeout true
  · subst hw; exact guarded_disconnect h.inv
  by_cases hr : hd = .responseTimeout true
  · subst hr; exact guarded_disconnect h.inv
  -- any other handler: both expiry handlers that were queued still are
  exact Guarded.calm (l := { l with queue := l.queue.eraseIdx k })
    ⟨h.inv, fun hc => (h.work hc).imp_right (hkeep (Ne.symm hw)),
      fun hp => (h.response hp).imp_right (hkeep (Ne.symm hr))⟩
    (calm_handle _ _ _ _ _ hd)

theorem Link.Guarded.step {l : Link} (h : l.Guarded) (e : LinkEvent) :
    (l.step conn toEpoch version parse submitHashrate e).Guarded := by
  cases e with
  | connect tls => exact h.calm (calm_connect l tls)
  | disconnect => exact h.calm (calm_disconnect l)
  | submitSolution sol =>
    dsimp only [Link.step]
    split
    · rename_i hs
      exact h.calm ((l.calm_reply (Session.keeps_submitSolution conn hs) _).trans
        (calm_applyEffects _ _))
    · exact h
  | submitHashrate | exitRun =>
    dsimp only [Link.step]
    split <;> exact h.calm (.of_same rfl rfl)
  | arrive g bytes => exact h.calm (.of_same rfl rfl)
  | complete k ok =>
    dsimp only [Link.step]
    split
    · split
      · exact h
      · exact h.calm (.of_transport rfl (List.subset_append_left _ _))
    · exact h
  | readSome k n =>
    dsimp only [Link.step]
    split
    · split
      · exact h.calm (.of_transport rfl (List.subset_append_left _ _))
      · exact h.calm (.of_same rfl rfl)
    · exact h
  | expireWork =>
    -- the timer stops, its expiry is queued
    dsimp only [Link.step]
    split
    · exact ⟨⟨h.inv.1, h.inv.2, h.inv.3⟩, fun _ => .inr (List.mem_append_right _ (.head _)),
        fun hp => (h.response hp).imp_right (List.mem_append_left _)⟩
    · exact h
  | expireResponse =>
    dsimp only [Link.step]
    split
    · exact ⟨⟨h.inv.1, h.inv.2, h.inv.3⟩, fun hc => (h.work hc).imp_right (List.mem_append_left _),
        fun _ => .inr (List.mem_append_right _ (.head _))⟩
    · exact h
  | expireHashrate =>
    dsimp only [Link.step]
    split
    · exact h.calm (.of_transport rfl (List.subset_append_left _ _))
    · exact h
  | deliver k =>
    dsimp only [Link.step]
    split
    · split
      · rename_i hk
        exact h.deliver conn toEpoch version parse hk
      · exact h
    · exact h

theorem Link.Guarded.run {l : Link} (h : l.Guarded) (es : List LinkEvent) :
    (l.run conn toEpoch version parse submitHashrate es).Guarded := by
  induction es generalizing l with
  | nil => exact h
  | cons e es ih => exact ih (h.step conn toEpoch version parse submitHashrate e)

/-- **No watchdog is lost.** Over every run from a session in range, neither connected nor
waiting for a response: while the client is connected, its work timer waits or its expiry
handler is queued, and while a response is pending, the response timer waits or its expiry
handler is queued. Either handler, once the reactor runs it, calls `disconnect()`. -/
theorem watchdogs_never_lost {s : Session} (hs : SessionInv s) (hc : s.connected = false)
    (hp : s.responsePending = false) (es : List LinkEvent) :
    (((Link.initial s).run conn toEpoch version parse submitHashrate es).session.connected = true →
      ((Link.initial s).run conn toEpoch version parse submitHashrate es).session.workTimer = true ∨
        Handler.workTimeout true ∈
          ((Link.initial s).run conn toEpoch version parse submitHashrate es).queue) ∧
    (((Link.initial s).run conn toEpoch version parse submitHashrate es).session.responsePending =
        true →
      ((Link.initial s).run conn toEpoch version parse submitHashrate es).session.responseTimer =
          true ∨
        Handler.responseTimeout true ∈
          ((Link.initial s).run conn toEpoch version parse submitHashrate es).queue) :=
  let h := (Link.Guarded.initial hs hc hp).run conn toEpoch version parse submitHashrate es
  ⟨h.work, h.response⟩

/-- A session at difficulty 1, connected over a plain socket: `connect()`, then the resolve and
connect handlers. -/
theorem watchdogs_never_lost_connected :
    SessionInv ⟨false, false, false, false, false, 1, 0, 0, WorkPackage.empty, "", false, false⟩ ∧
      (((Link.initial ⟨false, false, false, false, false, 1, 0, 0, WorkPackage.empty, "", false,
          false⟩).run ⟨.ethereumStratum, "u", "p"⟩ (fun _ => .ok 0) "v" (fun _ => none) false
          [.connect false, .complete 0 true, .deliver 0, .complete 0 true,
            .deliver 0]).session.connected = true →
        ((Link.initial ⟨false, false, false, false, false, 1, 0, 0, WorkPackage.empty, "", false,
          false⟩).run ⟨.ethereumStratum, "u", "p"⟩ (fun _ => .ok 0) "v" (fun _ => none) false
          [.connect false, .complete 0 true, .deliver 0, .complete 0 true,
            .deliver 0]).session.workTimer = true ∨
        Handler.workTimeout true ∈
          ((Link.initial ⟨false, false, false, false, false, 1, 0, 0, WorkPackage.empty, "", false,
            false⟩).run ⟨.ethereumStratum, "u", "p"⟩ (fun _ => .ok 0) "v" (fun _ => none) false
            [.connect false, .complete 0 true, .deliver 0, .complete 0 true,
              .deliver 0]).queue) ∧
      (((Link.initial ⟨false, false, false, false, false, 1, 0, 0, WorkPackage.empty, "", false,
          false⟩).run ⟨.ethereumStratum, "u", "p"⟩ (fun _ => .ok 0) "v" (fun _ => none) false
          [.connect false, .complete 0 true, .deliver 0, .complete 0 true,
            .deliver 0]).session.responsePending = true →
        ((Link.initial ⟨false, false, false, false, false, 1, 0, 0, WorkPackage.empty, "", false,
          false⟩).run ⟨.ethereumStratum, "u", "p"⟩ (fun _ => .ok 0) "v" (fun _ => none) false
          [.connect false, .complete 0 true, .deliver 0, .complete 0 true,
            .deliver 0]).session.responseTimer = true ∨
        Handler.responseTimeout true ∈
          ((Link.initial ⟨false, false, false, false, false, 1, 0, 0, WorkPackage.empty, "", false,
            false⟩).run ⟨.ethereumStratum, "u", "p"⟩ (fun _ => .ok 0) "v" (fun _ => none) false
            [.connect false, .complete 0 true, .deliver 0, .complete 0 true,
              .deliver 0]).queue) :=
  have hs : SessionInv ⟨false, false, false, false, false, 1, 0, 0, WorkPackage.empty, "", false,
      false⟩ := ⟨by norm_num, by norm_num, fun _ => rfl⟩
  ⟨hs, watchdogs_never_lost ⟨.ethereumStratum, "u", "p"⟩ (fun _ => .ok 0) "v" (fun _ => none) false
    hs rfl rfl _⟩

end ProgPowMiner.Stratum
