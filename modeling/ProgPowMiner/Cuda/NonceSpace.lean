import ProgPowMiner.Cuda.WorkLoop
import ProgPowMiner.Stratum.Client
import Mathlib.Data.Nat.ModEq

/-!
# The nonce space of the ethereum-stratum dialect

In the ethereum-stratum dialect the pool gives each subscriber a nonce prefix, the extranonce
`E` of `L` hex digits. `processExtranonce` puts `E` in the top `4 L` bits of `m_extraNonce`, the
notify handler copies it into the package (`startNonce`, `exSizeBits = 4 L`), `workLoop` places
the worker's `index` at bit `64 - LOG2_MAX_MINERS - 4 L`, `search` adds `batch_size` to
`m_current_nonce` before every launch, and `submitSolution` sends the nonce's hex without its
first `L` digits.

* `Miner.launches_run_continues`, `Miner.run_currentNonce_continues`: over a run that no call
  of `search` restarts (`Miner.Continues`: kicks, stop requests and calls that keep the header,
  the target and `m_starting_nonce` may interleave), the `k`-th launch hands the kernel
  `m_current_nonce + (k + 1) * batch_size`, and the counter ends one batch on per launch; every
  nonce a launch covers is `m_current_nonce + r` with `r < (n + 1) * batch_size` (`covers_run`).
* `startNonceOf_field`: worker `index`'s start nonce is the pool's start nonce plus
  `index * 2 ^ (64 - lg - 4 L)`.
* `searched_nonce_keeps_extranonce`: as long as the counter has not left the bits below the
  prefix, the client strips exactly `E` from every nonce the worker searches;
  `searched_nonce_leaves_extranonce` is a run that leaves them.
* `workers_search_disjoint`: as long as each counter stays inside its worker's field, two
  workers never search the same nonce; `workers_search_same_nonce` is a run where one counter
  runs into the next worker's field.

Proof idea. No launch nonce wraps while the offsets stay below `2 ^ (64 - 4 L)`, so a searched
nonce is `startNonce + index * 2 ^ s + r` exactly (`add_field`): its bits from `64 - 4 L` up are
`E`, and its bits from `s` up are those of the prefix followed by `index`.
-/

namespace ProgPowMiner.Cuda

open Stratum

/-! ### The launches of a run -/

/-- The launch an event issues, if it is one. -/
def HostEvent.launched : HostEvent → Option Launch
  | .launch l => some l
  | _ => none

/-- The kernel launches of a trace, in order. -/
def launches (tr : List HostEvent) : List Launch := tr.filterMap HostEvent.launched

/-- The nonces the threads of launch `l` hash: thread `gid < batch_size` hashes
`m_current_nonce + gid`, the nonce the host credits to a report of `gid`. -/
def Launch.Covers (c : Config) (l : Launch) (x : Nat) : Prop :=
  ∃ g < c.batchSize, x = u64 (l.nonce + g)

/-- `m_current_nonce` after `k` increments by `batch_size` from `start`. -/
def nonceAfter (c : Config) (start k : Nat) : Nat := u64 (start + k * c.batchSize)

@[simp] theorem launches_append (xs ys : List HostEvent) :
    launches (xs ++ ys) = launches xs ++ launches ys := List.filterMap_append _ _ _

@[simp] theorem launches_nil : launches [] = [] := rfl

@[simp] theorem launches_launch (l : Launch) (tr : List HostEvent) :
    launches (.launch l :: tr) = l :: launches tr := rfl

@[simp] theorem nonceAfter_one (c : Config) (start : Nat) :
    nonceAfter c start 1 = u64 (start + c.batchSize) := by
  rw [nonceAfter, Nat.one_mul]

theorem nonceAfter_succ (c : Config) (start k : Nat) :
    nonceAfter c (u64 (start + c.batchSize)) k = nonceAfter c start (k + 1) := by
  rw [nonceAfter, nonceAfter, u64_add_u64, Nat.add_assoc, Nat.succ_mul, Nat.add_comm c.batchSize]

variable (kernel : Launch → List Found) (eval : Int → Nat → Nat → Nat × Nat) (c : Config)

theorem launches_proofs (w : WorkPackage) (base : Nat) (stale : Bool) (es : List Entry) :
    launches (proofs eval c w base stale es) = [] := by
  simp only [launches, proofs, List.filterMap_map, List.filterMap_eq_nil_iff]
  intro e _
  simp only [Function.comp_apply]
  split_ifs <;> rfl

theorem Miner.launches_drain (m : Miner) (i base : Nat) :
    launches (m.drain kernel i base).2.2 = [] := by
  rw [Miner.drain_events]
  split <;> rfl

theorem Miner.launches_iterate (m : Miner) (w : WorkPackage) :
    launches (m.iterate kernel eval c w).2 = [m.nextLaunch c] := by
  rw [Miner.iterate_events]
  split_ifs <;> simp [Miner.launches_drain, launches_proofs, launches_launch]

theorem launches_resetBuffers (m : Miner) : launches (m.resetBuffers kernel c).2 = [] := by
  simp [Miner.resetBuffers, launches, List.filterMap_map, Function.comp_def, HostEvent.launched]

/-- No call of `search` in the run moves the nonce counter: each call leaves `m_current_nonce`
where it found it (a call while another is in progress, or one with the same header and target
and, on an ethereum-stratum connection, `m_starting_nonce == _startN`). A run that starts at the
last reset of the counter and satisfies this runs "since the reset", whatever kicks, stop
requests and re-entries it contains. -/
def Miner.Continues : Miner → List Action → Prop
  | _, [] => True
  | m, a :: as => (a.isSearch → (m.step kernel eval c a).1.currentNonce = m.currentNonce) ∧
      (m.step kernel eval c a).1.Continues as

instance Miner.decContinues : ∀ (m : Miner) (as : List Action),
    Decidable (m.Continues kernel eval c as)
  | _, [] => isTrue trivial
  | m, a :: as =>
    have := Miner.decContinues (m.step kernel eval c a).1 as
    inferInstanceAs (Decidable (_ ∧ _))

theorem Miner.continues_replicate_iterate (m : Miner) (n : Nat) :
    m.Continues kernel eval c (List.replicate n .iterate) := by
  induction n generalizing m with
  | zero => trivial
  | succ n ih => exact And.intro (fun h => by cases h) (ih _)

theorem Miner.step_counter (m : Miner) (a : Action)
    (h : a.isSearch → (m.step kernel eval c a).1.currentNonce = m.currentNonce) :
    launches (m.step kernel eval c a).2 = [] ∧
        (m.step kernel eval c a).1.currentNonce = m.currentNonce ∨
      launches (m.step kernel eval c a).2 = [m.nextLaunch c] ∧
        (m.step kernel eval c a).1.currentNonce = u64 (m.currentNonce + c.batchSize) := by
  cases a with
  | search header target ethStratum startN startNonce w =>
    refine .inl ⟨?_, h rfl⟩
    simp only [Miner.step]
    split
    · rw [Miner.begin_events]
      split
      · exact launches_resetBuffers kernel c m
      · rfl
    · rfl
  | iterate =>
    simp only [Miner.step]
    split
    · exact .inr ⟨Miner.launches_iterate .., Miner.iterate_currentNonce ..⟩
    · exact .inl ⟨rfl, rfl⟩
  | kick => exact .inl ⟨rfl, rfl⟩
  | stop => exact .inl ⟨rfl, rfl⟩

theorem Miner.launches_run_continues {m : Miner} {as : List Action}
    (h : m.Continues kernel eval c as) :
    (launches (m.run kernel eval c as).2).map (·.nonce) =
      (List.range (launches (m.run kernel eval c as).2).length).map fun k =>
        nonceAfter c m.currentNonce (k + 1) := by
  induction as generalizing m with
  | nil => rfl
  | cons a as ih =>
    simp only [Miner.run, launches_append, List.map_append, List.length_append]
    rcases m.step_counter kernel eval c a h.1 with ⟨hl, hn⟩ | ⟨hl, hn⟩
    · rw [hl, ih h.2, hn]
      simp
    · rw [hl, ih h.2, hn, List.length_singleton, Nat.add_comm 1, List.range_succ_eq_map]
      simp [nonceAfter_succ, Miner.nextLaunch, Function.comp_def]

/-- Such a run leaves the counter at `start + iterations * batch_size` (modulo `2 ^ 64`), its
iterations being its launches. -/
theorem Miner.run_currentNonce_continues {m : Miner} {as : List Action}
    (h : m.Continues kernel eval c as) (h64 : m.currentNonce < 2 ^ 64) :
    (m.run kernel eval c as).1.currentNonce =
      nonceAfter c m.currentNonce (launches (m.run kernel eval c as).2).length := by
  induction as generalizing m with
  | nil => simp [Miner.run, nonceAfter, u64_of_lt h64]
  | cons a as ih =>
    simp only [Miner.run, launches_append, List.length_append]
    rcases m.step_counter kernel eval c a h.1 with ⟨hl, hn⟩ | ⟨hl, hn⟩
    · rw [ih h.2 (hn ▸ h64), hn, hl, List.length_nil, Nat.zero_add]
    · rw [ih h.2 (hn ▸ u64_lt _), hn, hl, List.length_singleton, nonceAfter_succ, Nat.add_comm]

theorem Miner.launches_run_active {m : Miner} {w : WorkPackage} (hw : m.work = some w)
    (hn : m.newWork = false) (hs : m.stopping = false) (n : Nat) :
    (launches (m.run kernel eval c (List.replicate n .iterate)).2).map (·.nonce) =
      (List.range n).map fun k => nonceAfter c m.currentNonce (k + 1) := by
  induction n generalizing m with
  | zero => rfl
  | succ n ih =>
    obtain ⟨hw', hn', hs'⟩ := Miner.iterate_stays kernel eval c m w hn hs
    rw [List.replicate_succ]
    simp [Miner.run, Miner.step, hw, Miner.launches_iterate, ih (hw'.trans hw) hn' hs',
      Miner.iterate_currentNonce, nonceAfter_succ, List.range_succ_eq_map, Miner.nextLaunch,
      Function.comp_def]

theorem covers_run {m : Miner} {as : List Action} (hc : m.Continues kernel eval c as) {n : Nat}
    (hn : (launches (m.run kernel eval c as).2).length ≤ n) {l : Launch}
    (hl : l ∈ launches (m.run kernel eval c as).2) {x : Nat} (hx : l.Covers c x) :
    ∃ r, c.batchSize ≤ r ∧ r < (n + 1) * c.batchSize ∧ x = u64 (m.currentNonce + r) := by
  have hmem : l.nonce ∈ (List.range (launches (m.run kernel eval c as).2).length).map
      fun k => nonceAfter c m.currentNonce (k + 1) :=
    Miner.launches_run_continues kernel eval c hc ▸ List.mem_map_of_mem _ hl
  obtain ⟨k, hk, hkl⟩ := List.mem_map.1 hmem
  obtain ⟨g, hg, rfl⟩ := hx
  have hk' : k + 2 ≤ n + 1 := by have := List.mem_range.1 hk; omega
  refine ⟨(k + 1) * c.batchSize + g, ?_, ?_, ?_⟩
  · rw [Nat.succ_mul]; omega
  · calc (k + 1) * c.batchSize + g < (k + 2) * c.batchSize := by rw [Nat.succ_mul (k + 1)]; omega
      _ ≤ (n + 1) * c.batchSize := Nat.mul_le_mul_right _ hk'
  · rw [← hkl, nonceAfter, u64_add_u64, Nat.add_assoc]

/-! ### The worker's field -/

theorem add_field {t base off : Nat} (ht : t ≤ 64) (hb : base % 2 ^ t = 0)
    (hb64 : base < 2 ^ 64) (hoff : off < 2 ^ t) :
    base + off < 2 ^ 64 ∧ (base + off) / 2 ^ t = base / 2 ^ t := by
  obtain ⟨q, rfl⟩ := Nat.dvd_of_mod_eq_zero hb
  have hP : 0 < 2 ^ t := Nat.two_pow_pos t
  have h64 : 2 ^ 64 = 2 ^ t * 2 ^ (64 - t) := by rw [← Nat.pow_add, Nat.add_sub_cancel' ht]
  have hq : q < 2 ^ (64 - t) := by
    rw [h64] at hb64; exact Nat.lt_of_mul_lt_mul_left hb64
  refine ⟨?_, by
    rw [Nat.mul_add_div hP, Nat.div_eq_of_lt hoff, Nat.add_zero, Nat.mul_div_cancel_left _ hP]⟩
  calc 2 ^ t * q + off < 2 ^ t * (q + 1) := by rw [Nat.mul_succ]; omega
    _ ≤ 2 ^ 64 := h64 ▸ Nat.mul_le_mul_left _ hq

theorem startNonceOf_field {lg index L : Nat} {w : WorkPackage} (hL : w.exSizeBits = 4 * L)
    (hfield : 0 < lg + 4 * L ∧ lg + 4 * L ≤ 64) (hlow : w.startNonce % 2 ^ (64 - 4 * L) = 0)
    (hi : index < 2 ^ lg) :
    startNonceOf lg index w = some (w.startNonce + index * 2 ^ (64 - lg - 4 * L)) := by
  have hpow : 2 ^ lg * 2 ^ (64 - lg - 4 * L) = 2 ^ (64 - 4 * L) := by
    rw [← Nat.pow_add]; congr 1; omega
  have hidx : index * 2 ^ (64 - lg - 4 * L) < 2 ^ (64 - 4 * L) :=
    hpow ▸ Nat.mul_lt_mul_of_pos_right hi (Nat.two_pow_pos _)
  have h64 : index * 2 ^ (64 - lg - 4 * L) < 2 ^ 64 :=
    Nat.lt_of_lt_of_le hidx (Nat.pow_le_pow_right (by decide) (by omega))
  have hs : ((64 : Int) - lg - w.exSizeBits).toNat = 64 - lg - 4 * L := by rw [hL]; omega
  have hor : w.startNonce ||| index * 2 ^ (64 - lg - 4 * L) =
      w.startNonce + index * 2 ^ (64 - lg - 4 * L) := by
    obtain ⟨q, hq⟩ := Nat.dvd_of_mod_eq_zero hlow
    rw [hq, Nat.mul_add_lt_is_or hidx]
  simp only [startNonceOf, shiftLeft64, hs, u64_of_lt h64]
  rw [if_pos (by omega), if_pos (by omega), Option.map_some', hor]

theorem extraNonce_field {E : List Char} {v : Nat} (hL : E.length ≤ 16)
    (hv : hexValue? E = some v) :
    (v * 16 ^ (16 - E.length)) % 2 ^ (64 - 4 * E.length) = 0 ∧
      v * 16 ^ (16 - E.length) < 2 ^ 64 ∧
      v * 16 ^ (16 - E.length) / 2 ^ (64 - 4 * E.length) = v := by
  have h16 : 16 ^ (16 - E.length) = 2 ^ (64 - 4 * E.length) := by
    rw [show (16 : Nat) = 2 ^ 4 from rfl, ← Nat.pow_mul]; congr 1; omega
  have hv16 : v < 2 ^ (4 * E.length) := by
    have := hexValue?_lt hv; rwa [show (16 : Nat) = 2 ^ 4 from rfl, ← Nat.pow_mul] at this
  rw [h16]
  refine ⟨Nat.mul_mod_left _ _, ?_, Nat.mul_div_cancel _ (Nat.two_pow_pos _)⟩
  calc v * 2 ^ (64 - 4 * E.length) < 2 ^ (4 * E.length) * 2 ^ (64 - 4 * E.length) :=
        Nat.mul_lt_mul_of_pos_right hv16 (Nat.two_pow_pos _)
    _ = 2 ^ 64 := by rw [← Nat.pow_add]; congr 1; omega

/-! ### The extranonce prefix -/

section Prefix

variable (toEpoch : Nat → Except Throw Int)

/-- **The client strips exactly the extranonce.** Take an extranonce `E` of `L` hex digits with
`4 L + LOG2_MAX_MINERS ≤ 64`, a package notified under it, and worker `index` from the reset of
its counter to its start nonce, followed by a run of at most `n` iterations that no call of
`search` restarts (kicks, stop requests and re-entries included). While the counter stays below
the prefix (`index * 2 ^ s + (n + 1) * batch_size ≤ 2 ^ (64 - 4 L)`), every nonce a launch covers
carries `E`: `E` in lowercase followed by the digits `submitSolution` sends is the nonce's hex. -/
theorem searched_nonce_keeps_extranonce (lg : Nat) {E : List Char}
    (hE : ∀ ch ∈ E, IsHexDigit ch) (hfield : 0 < lg + 4 * E.length ∧ lg + 4 * E.length ≤ 64)
    {s sE : Session} (hs : s.processExtranonce E = .ok sE) {w : WorkPackage}
    (hw : NotifiedUnder toEpoch sE w) {index : Nat} (hi : index < 2 ^ lg) {m : Miner}
    (hm : startNonceOf lg index w = some m.currentNonce) {as : List Action}
    (hc : m.Continues kernel eval c as) {n : Nat}
    (hlen : (launches (m.run kernel eval c as).2).length ≤ n)
    (hn : index * 2 ^ (64 - lg - 4 * E.length) + (n + 1) * c.batchSize ≤ 2 ^ (64 - 4 * E.length))
    {l : Launch} (hl : l ∈ launches (m.run kernel eval c as).2) {x : Nat} (hx : l.Covers c x) :
    (submitNonceParam sE.extraNonceHexSize x).map (E.map Char.toLower ++ ·) = .ok (toHex16 x) := by
  have hL : E.length ≤ 16 := by omega
  obtain ⟨v, hv, -⟩ := toHexN_hexValue?_toLower hE
  rw [s.processExtranonce_ok hE hL hv, Except.ok.injEq] at hs
  subst hs
  obtain ⟨hstart, hbits⟩ := hw.fields
  dsimp only at hstart hbits ⊢
  obtain ⟨hlow, h64, hdiv⟩ := extraNonce_field hL hv
  rw [← hstart] at hlow h64 hdiv
  rw [startNonceOf_field hbits hfield hlow hi, Option.some.injEq] at hm
  obtain ⟨r, -, hr, rfl⟩ := covers_run kernel eval c hc hlen hl hx
  have hoff : index * 2 ^ (64 - lg - 4 * E.length) + r < 2 ^ (64 - 4 * E.length) := by omega
  obtain ⟨hwrap, hhigh⟩ := add_field (by omega) hlow h64 hoff
  have h16 : 16 ^ (16 - E.length) = 2 ^ (64 - 4 * E.length) := by
    rw [show (16 : Nat) = 2 ^ 4 from rfl, ← Nat.pow_mul]; congr 1; omega
  rw [← hm, Nat.add_assoc, u64_of_lt hwrap]
  exact submitNonceParam_prefix hE hL hv (by rw [h16, hhigh, hdiv])

/-- Worker 0 on a package notified under the uppercase extranonce `08C0`: an iteration, a kick
that ends the call at the next iteration, a re-entry with a new job on the same header, target
and start nonce, and one more iteration. The third launch's first nonce is sent as
`000000180000` behind `08c0`. -/
theorem searched_nonce_keeps_extranonce_reentry :
    (submitNonceParam 4 (0x08c0 * 2 ^ 48 + 3 * 2 ^ 19)).map ("08C0".data.map Char.toLower ++ ·) =
      .ok (toHex16 (0x08c0 * 2 ^ 48 + 3 * 2 ^ 19)) :=
  searched_nonce_keeps_extranonce (fun _ => []) (fun _ _ _ => (0, 0)) Config.defaults
    (fun _ => .ok 0) 5 (by decide) (by decide)
    (show Session.processExtranonce ⟨true, true, false, false, false, 1, 0, 0, WorkPackage.empty,
        "", false, true⟩ "08C0".data = .ok ⟨true, true, false, false, false, 1, 0x08c0 * 2 ^ 48, 4,
        WorkPackage.empty, "", false, true⟩ from rfl)
    ⟨_, .arr [.str "1", .str "0x0000000000000000000000000000000000000000000000000000000000000001",
        .str "0x0000000000000000000000000000000000000000000000000000000000000001", .int 1], "1",
      (⟨true, true, false, false, false, 1, 0x08c0 * 2 ^ 48, 4,
        ⟨1, 0, 0xFFFF0000 * 2 ^ 192, 1, 2 ^ 252, 1, 0x08c0 * 2 ^ 48, 16⟩, "", false, true⟩,
        [.workReceived ⟨1, 0, 0xFFFF0000 * 2 ^ 192, 1, 2 ^ 252, 1, 0x08c0 * 2 ^ 48, 16⟩]),
      rfl, rfl, by simp only [Session.notifyEthereumStratum, Session.resetWorkTimeout,
        diffToTarget_one]; rfl, List.mem_singleton_self _⟩
    (show 0 < 2 ^ 5 by decide)
    (show startNonceOf 5 0 ⟨1, 0, 0xFFFF0000 * 2 ^ 192, 1, 2 ^ 252, 1, 0x08c0 * 2 ^ 48, 16⟩ =
        some ((Miner.init 0).step (fun _ => []) (fun _ _ _ => (0, 0)) Config.defaults
          (.search 1 0xFFFF0000 true (0x08c0 * 2 ^ 48) 0
            ⟨1, 0, 0xFFFF0000 * 2 ^ 192, 1, 2 ^ 252, 1, 0x08c0 * 2 ^ 48, 16⟩)).1.currentNonce
      by decide)
    (show Miner.Continues (fun _ => []) (fun _ _ _ => (0, 0)) Config.defaults
        ((Miner.init 0).step (fun _ => []) (fun _ _ _ => (0, 0)) Config.defaults
          (.search 1 0xFFFF0000 true (0x08c0 * 2 ^ 48) 0
            ⟨1, 0, 0xFFFF0000 * 2 ^ 192, 1, 2 ^ 252, 1, 0x08c0 * 2 ^ 48, 16⟩)).1
        [.iterate, .kick, .iterate, .search 1 0xFFFF0000 true (0x08c0 * 2 ^ 48) 0
          ⟨1, 0, 0xFFFF0000 * 2 ^ 192, 1, 2 ^ 252, 2, 0x08c0 * 2 ^ 48, 16⟩, .iterate] by decide)
    (n := 3) (by decide)
    (show 0 * 2 ^ (64 - 5 - 4 * 4) + (3 + 1) * Config.defaults.batchSize ≤ 2 ^ (64 - 4 * 4)
      by decide)
    (l := ⟨2, 1, 0x08c0 * 2 ^ 48 + 3 * 2 ^ 19, 1, 0xFFFF0000⟩) (by decide)
    ⟨0, by decide, by decide⟩

/-- The extranonce `08c0` with the default configuration: worker 31 of `2 ^ 5` starts at
`0x08c0 * 2 ^ 48 + 31 * 2 ^ 43`, and after `2 ^ 24` iterations its counter reaches
`0x08c1 * 2 ^ 48`. That launch searches nonces whose first digits are `08c1`, and the client
sends their last twelve digits, which behind `08c0` spell another nonce. The launches do not
depend on the kernel or the host's `eval`. -/
theorem searched_nonce_leaves_extranonce :
    ∃ (sE : Session) (w : WorkPackage) (m : Miner) (l : Launch) (x : Nat),
      Session.processExtranonce ⟨true, true, false, false, false, 1, 0, 0, WorkPackage.empty, "",
        false, true⟩ "08c0".data = .ok sE ∧
      NotifiedUnder (fun _ => .ok 0) sE w ∧ startNonceOf 5 31 w = some m.currentNonce ∧
      l ∈ launches (m.run (fun _ => []) (fun _ _ _ => (0, 0)) Config.defaults
        (List.replicate (2 ^ 24) .iterate)).2 ∧
      l.Covers Config.defaults x ∧
      (submitNonceParam sE.extraNonceHexSize x).map ("08c0".data ++ ·) ≠ .ok (toHex16 x) := by
  -- the state `search` leaves for worker 31 on the notified package
  have hact := @Miner.launches_run_active (fun _ => []) (fun _ _ _ => (0, 0)) Config.defaults
    ((Miner.init 0).step (fun _ => []) (fun _ _ _ => (0, 0)) Config.defaults
      (.search 1 0xFFFF0000 true (0x08c0 * 2 ^ 48 + 31 * 2 ^ 43) 0
        ⟨1, 0, 0xFFFF0000 * 2 ^ 192, 1, 2 ^ 252, 1, 0x08c0 * 2 ^ 48, 16⟩)).1
    ⟨1, 0, 0xFFFF0000 * 2 ^ 192, 1, 2 ^ 252, 1, 0x08c0 * 2 ^ 48, 16⟩ (by decide) (by decide)
    (by decide) (2 ^ 24)
  obtain ⟨l, hl, hln⟩ := List.mem_map.1 (hact ▸ List.mem_map.2
    ⟨2 ^ 24 - 1, List.mem_range.2 (by decide), rfl⟩)
  refine ⟨_, _, _, l, l.nonce, rfl, ⟨_, .arr [.str "1",
      .str "0x0000000000000000000000000000000000000000000000000000000000000001",
      .str "0x0000000000000000000000000000000000000000000000000000000000000001", .int 1], "1",
    (⟨true, true, false, false, false, 1, 0x08c0 * 2 ^ 48, 4,
      ⟨1, 0, 0xFFFF0000 * 2 ^ 192, 1, 2 ^ 252, 1, 0x08c0 * 2 ^ 48, 16⟩, "", false, true⟩,
      [.workReceived ⟨1, 0, 0xFFFF0000 * 2 ^ 192, 1, 2 ^ 252, 1, 0x08c0 * 2 ^ 48, 16⟩]),
    rfl, rfl, by simp only [Session.notifyEthereumStratum, Session.resetWorkTimeout,
      diffToTarget_one]; rfl, List.mem_singleton_self _⟩, by decide, hl,
    ⟨0, by decide, by rw [Nat.add_zero, hln, nonceAfter, u64_u64]⟩, ?_⟩
  rw [hln]
  show Except.ok "08c0000000000000".data ≠ Except.ok "08c1000000000000".data
  intro h
  injection h with h
  exact absurd h (by decide)

end Prefix

/-! ### Disjoint workers -/

/-- While its counter stays inside its field (`(n + 1) * batch_size ≤ 2 ^ s`), every nonce worker
`k` covers has the package's start nonce plus `k` as its bits from `s = 64 - lg - 4 L` up. -/
theorem covers_field {lg L : Nat} {w : WorkPackage} (hL : w.exSizeBits = 4 * L)
    (hfield : 0 < lg + 4 * L ∧ lg + 4 * L ≤ 64) (hlow : w.startNonce % 2 ^ (64 - 4 * L) = 0)
    (h64 : w.startNonce < 2 ^ 64) {k n : Nat} {m : Miner} {as : List Action} {l : Launch}
    {x : Nat} (hk : k < 2 ^ lg) (hm : startNonceOf lg k w = some m.currentNonce)
    (hc : m.Continues kernel eval c as) (hlen : (launches (m.run kernel eval c as).2).length ≤ n)
    (hn : (n + 1) * c.batchSize ≤ 2 ^ (64 - lg - 4 * L))
    (hl : l ∈ launches (m.run kernel eval c as).2) (hx : l.Covers c x) :
    x / 2 ^ (64 - lg - 4 * L) = w.startNonce / 2 ^ (64 - lg - 4 * L) + k := by
  have hP : 0 < 2 ^ (64 - lg - 4 * L) := Nat.two_pow_pos _
  have hpow : 2 ^ (64 - 4 * L) = 2 ^ (64 - lg - 4 * L) * 2 ^ lg := by
    rw [← Nat.pow_add]; congr 1; omega
  have hdvd : 2 ^ (64 - lg - 4 * L) ∣ w.startNonce :=
    Nat.dvd_trans ⟨_, hpow⟩ (Nat.dvd_of_mod_eq_zero hlow)
  rw [startNonceOf_field hL hfield hlow hk, Option.some.injEq] at hm
  obtain ⟨r, -, hr, rfl⟩ := covers_run kernel eval c hc hlen hl hx
  have hoff : k * 2 ^ (64 - lg - 4 * L) + r < 2 ^ (64 - 4 * L) := by
    calc k * 2 ^ (64 - lg - 4 * L) + r < (k + 1) * 2 ^ (64 - lg - 4 * L) := by
          rw [Nat.add_one_mul k]; omega
      _ ≤ 2 ^ lg * 2 ^ (64 - lg - 4 * L) := Nat.mul_le_mul_right _ hk
      _ = 2 ^ (64 - 4 * L) := by rw [hpow, Nat.mul_comm]
  rw [← hm, Nat.add_assoc, u64_of_lt (add_field (by omega) hlow h64 hoff).1,
    Nat.add_div_of_dvd_right hdvd, Nat.add_comm (k * _), Nat.add_mul_div_right _ _ hP,
    Nat.div_eq_of_lt (by omega : r < _), Nat.zero_add]

/-- **Workers search disjoint nonces.** For a package whose prefix fills the top `4 L` bits
(the rest zero, as `processExtranonce` makes it) and two workers `i ≠ j` below
`2 ^ LOG2_MAX_MINERS`, each from the reset of its counter to its start nonce followed by a run of
at most `n_i` (`n_j`) iterations that no call of `search` restarts: while each counter stays
inside its worker's field (`(n + 1) * batch_size ≤ 2 ^ s`), no nonce is covered by a launch of
both. -/
theorem workers_search_disjoint {lg L : Nat} {w : WorkPackage} (hL : w.exSizeBits = 4 * L)
    (hfield : 0 < lg + 4 * L ∧ lg + 4 * L ≤ 64) (hlow : w.startNonce % 2 ^ (64 - 4 * L) = 0)
    (h64 : w.startNonce < 2 ^ 64) {i j : Nat} (hij : i ≠ j) (hi : i < 2 ^ lg) (hj : j < 2 ^ lg)
    {mi mj : Miner} (hmi : startNonceOf lg i w = some mi.currentNonce)
    (hmj : startNonceOf lg j w = some mj.currentNonce) {asi asj : List Action}
    (hci : mi.Continues kernel eval c asi) (hcj : mj.Continues kernel eval c asj) {ni nj : Nat}
    (hleni : (launches (mi.run kernel eval c asi).2).length ≤ ni)
    (hlenj : (launches (mj.run kernel eval c asj).2).length ≤ nj)
    (hni : (ni + 1) * c.batchSize ≤ 2 ^ (64 - lg - 4 * L))
    (hnj : (nj + 1) * c.batchSize ≤ 2 ^ (64 - lg - 4 * L)) {li lj : Launch}
    (hli : li ∈ launches (mi.run kernel eval c asi).2)
    (hlj : lj ∈ launches (mj.run kernel eval c asj).2) (x : Nat) :
    ¬(li.Covers c x ∧ lj.Covers c x) := fun ⟨hxi, hxj⟩ => hij <| Nat.add_left_cancel <|
  (covers_field kernel eval c hL hfield hlow h64 hi hmi hci hleni hni hli hxi).symm.trans
    (covers_field kernel eval c hL hfield hlow h64 hj hmj hcj hlenj hnj hlj hxj)

/-- Workers 0 and 1 on a 4-byte extranonce. Worker 0 iterates, is kicked out of the call at its
next iteration, re-enters on the same header, target and start nonce, and iterates once more;
worker 1 iterates once. The nonce worker 1's launch starts at is not one worker 0's third launch
covers. -/
theorem workers_search_disjoint_reentry :
    ¬(Launch.Covers Config.defaults ⟨2, 1, 0x1a2b3c4d * 2 ^ 32 + 3 * 2 ^ 19, 1, 2 ^ 48⟩
        (0x1a2b3c4d * 2 ^ 32 + 2 ^ 27 + 2 ^ 19) ∧
      Launch.Covers Config.defaults ⟨0, 1, 0x1a2b3c4d * 2 ^ 32 + 2 ^ 27 + 2 ^ 19, 1, 2 ^ 48⟩
        (0x1a2b3c4d * 2 ^ 32 + 2 ^ 27 + 2 ^ 19)) :=
  workers_search_disjoint (fun _ => []) (fun _ _ _ => (0, 0)) Config.defaults
    (show (⟨1, 0, 2 ^ 240, 1, 0, 0, 0x1a2b3c4d * 2 ^ 32, 32⟩ : WorkPackage).exSizeBits =
      4 * ((8 : Nat) : Int) from rfl) (show 0 < 5 + 4 * 8 ∧ 5 + 4 * 8 ≤ 64 by decide) (by decide)
    (by decide) (show (0 : Nat) ≠ 1 by decide) (show 0 < 2 ^ 5 by decide)
    (show 1 < 2 ^ 5 by decide)
    (show startNonceOf 5 0 ⟨1, 0, 2 ^ 240, 1, 0, 0, 0x1a2b3c4d * 2 ^ 32, 32⟩ =
        some ((Miner.init 0).step (fun _ => []) (fun _ _ _ => (0, 0)) Config.defaults
          (.search 1 (2 ^ 48) true (0x1a2b3c4d * 2 ^ 32) 0
            ⟨1, 0, 2 ^ 240, 1, 0, 0, 0x1a2b3c4d * 2 ^ 32, 32⟩)).1.currentNonce by decide)
    (show startNonceOf 5 1 ⟨1, 0, 2 ^ 240, 1, 0, 0, 0x1a2b3c4d * 2 ^ 32, 32⟩ =
        some ((Miner.init 0).step (fun _ => []) (fun _ _ _ => (0, 0)) Config.defaults
          (.search 1 (2 ^ 48) true (0x1a2b3c4d * 2 ^ 32 + 2 ^ 27) 0
            ⟨1, 0, 2 ^ 240, 1, 0, 0, 0x1a2b3c4d * 2 ^ 32, 32⟩)).1.currentNonce by decide)
    (show Miner.Continues (fun _ => []) (fun _ _ _ => (0, 0)) Config.defaults
        ((Miner.init 0).step (fun _ => []) (fun _ _ _ => (0, 0)) Config.defaults
          (.search 1 (2 ^ 48) true (0x1a2b3c4d * 2 ^ 32) 0
            ⟨1, 0, 2 ^ 240, 1, 0, 0, 0x1a2b3c4d * 2 ^ 32, 32⟩)).1
        [.iterate, .kick, .iterate, .search 1 (2 ^ 48) true (0x1a2b3c4d * 2 ^ 32) 0
          ⟨1, 0, 2 ^ 240, 1, 0, 2, 0x1a2b3c4d * 2 ^ 32, 32⟩, .iterate] by decide)
    (show Miner.Continues (fun _ => []) (fun _ _ _ => (0, 0)) Config.defaults
        ((Miner.init 0).step (fun _ => []) (fun _ _ _ => (0, 0)) Config.defaults
          (.search 1 (2 ^ 48) true (0x1a2b3c4d * 2 ^ 32 + 2 ^ 27) 0
            ⟨1, 0, 2 ^ 240, 1, 0, 0, 0x1a2b3c4d * 2 ^ 32, 32⟩)).1 [.iterate] by decide)
    (by decide) (by decide)
    (show (3 + 1) * Config.defaults.batchSize ≤ 2 ^ (64 - 5 - 4 * 8) by decide)
    (show (1 + 1) * Config.defaults.batchSize ≤ 2 ^ (64 - 5 - 4 * 8) by decide)
    (by decide) (by decide) _

/-- A 4-byte extranonce (`exSizeBits = 32`) with the default configuration: worker 1's field
starts `2 ^ 27` above worker 0's, and worker 0's counter gets there after `2 ^ 27 / 2 ^ 19 = 256`
batches. Its 257th launch and worker 1's first launch hand the kernel the same nonces. The
launches do not depend on the kernel or the host's `eval`. -/
theorem workers_search_same_nonce :
    ∃ (m0 m1 : Miner) (l0 l1 : Launch) (x : Nat),
      startNonceOf 5 0 ⟨1, 0, 2 ^ 240, 1, 0, 0, 0x1a2b3c4d * 2 ^ 32, 32⟩ = some m0.currentNonce ∧
      startNonceOf 5 1 ⟨1, 0, 2 ^ 240, 1, 0, 0, 0x1a2b3c4d * 2 ^ 32, 32⟩ = some m1.currentNonce ∧
      l0 ∈ launches (m0.run (fun _ => []) (fun _ _ _ => (0, 0)) Config.defaults
        (List.replicate 257 .iterate)).2 ∧
      l1 ∈ launches (m1.run (fun _ => []) (fun _ _ _ => (0, 0)) Config.defaults
        (List.replicate 1 .iterate)).2 ∧
      l0.Covers Config.defaults x ∧ l1.Covers Config.defaults x := by
  have hact := @Miner.launches_run_active (fun _ => []) (fun _ _ _ => (0, 0)) Config.defaults
    ((Miner.init 0).step (fun _ => []) (fun _ _ _ => (0, 0)) Config.defaults
      (.search 1 (2 ^ 48) true (0x1a2b3c4d * 2 ^ 32) 0
        ⟨1, 0, 2 ^ 240, 1, 0, 0, 0x1a2b3c4d * 2 ^ 32, 32⟩)).1
    ⟨1, 0, 2 ^ 240, 1, 0, 0, 0x1a2b3c4d * 2 ^ 32, 32⟩ (by decide) (by decide) (by decide) 257
  obtain ⟨l0, hl0, hln⟩ := List.mem_map.1 (hact ▸ List.mem_map.2
    ⟨256, List.mem_range.2 (by decide), rfl⟩)
  refine ⟨_, (Miner.init 0).step (fun _ => []) (fun _ _ _ => (0, 0)) Config.defaults
      (.search 1 (2 ^ 48) true (0x1a2b3c4d * 2 ^ 32 + 2 ^ 27) 0
        ⟨1, 0, 2 ^ 240, 1, 0, 0, 0x1a2b3c4d * 2 ^ 32, 32⟩) |>.1, l0,
    ⟨0, 1, 0x1a2b3c4d * 2 ^ 32 + 2 ^ 27 + 2 ^ 19, 1, 2 ^ 48⟩, l0.nonce, by decide, by decide, hl0,
    by decide, ⟨0, by decide, ?_⟩, ⟨0, by decide, ?_⟩⟩
  · rw [Nat.add_zero, hln, nonceAfter, u64_u64]
  · rw [Nat.add_zero, hln]
    decide

end ProgPowMiner.Cuda
