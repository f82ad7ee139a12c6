import ProgPowMiner.Cuda.Pipeline

/-!
# The nonce a solution carries

`search` does not keep the nonce each launch searched. The drain of iteration `t` rebuilds it as
`nonce_base + gid`, with `nonce_base = m_current_nonce - s_numStreams * batch_size`, which is
right when the counter advanced by exactly one batch per iteration since the launch it reads.
`search_startN_restart_misattributes` breaks that with a call that restarts the counter at a new
`_startN` and keeps the header and target; a product `s_numStreams * batch_size` that wraps in
32 bits breaks it too. Outside those two cases the rebuilt nonce is the searched one:

* `search_credits_found_nonces`: over every run from the state `cuda_init` leaves in which every
  call passes the header of its package and every ethereum-stratum call one start nonce `N`,
  with `s_numStreams * batch_size < 2 ^ 32`: every drain credits each slot to the nonce its
  launch searched, and every solution handed to the farm carries `nonce + gid` for a launch of
  the run whose kernel reported `gid`, searched on the header of the solution's package.

Proof. Besides `Inv`, every state keeps `NonceInv`: a launch in flight searched the value the
counter had `k` batches ago, where `k + 1` is its age in iterations, on the current header; and
the start nonce is `N`. A drain reads the launch issued `S` iterations before
(`Inv.mem_drain_entries`), so its `nonce_base` is that launch's nonce (`NonceInv.nextBase`). An
iteration keeps `NonceInv`, since the counter and every age advance together; a call keeps it,
since without a restart it moves neither the counter nor the header, and a restart empties the
launches in flight.
-/

namespace ProgPowMiner.Cuda

/-- A `search` call as `workLoop` makes it on a connection whose start nonce stays `N`: the
header is that of the package, and an ethereum-stratum call passes `_startN = N`. -/
def Action.Consistent (N : Nat) : Action → Prop
  | .search header _ ethStratum startN _ w => header = w.header ∧ (ethStratum = true → startN = N)
  | _ => True

/-- The nonce bookkeeping of the launches in flight. -/
structure NonceInv (c : Config) (N : Nat) (m : Miner) : Prop where
  startingNonce : m.startingNonce = N
  nonce_lt : ∀ l ∈ m.inFlight, l.nonce < 2 ^ 64
  nonce : ∀ l ∈ m.inFlight, u64 (l.nonce + (m.tick - (l.tick + 1)) * c.batchSize) = m.currentNonce
  header : ∀ l ∈ m.inFlight, l.header = m.currentHeader
  work : ∀ w, m.work = some w → w.header = m.currentHeader

variable (kernel : Launch → List Found) (eval : Int → Nat → Nat → Nat × Nat) {c : Config}
  {N : Nat} {m : Miner}

theorem NonceInv.init (c : Config) (N : Nat) : NonceInv c N (Miner.init N) := by
  constructor <;> simp [Miner.init]

/-! ### One step -/

theorem mem_proofs_submit {w : WorkPackage} {base : Nat} {stale : Bool} {es : List Entry}
    {sol : Solution} (h : HostEvent.submit sol ∈ proofs eval c w base stale es) :
    sol.work = w ∧ ∃ e ∈ es, sol.nonce = u64 (base + e.found.gid) := by
  obtain ⟨e, he, hx⟩ := List.mem_map.mp h
  dsimp only at hx
  split_ifs at hx <;> cases hx
  all_goals exact ⟨rfl, e, he, rfl⟩

theorem Inv.mem_drain_results (h : Inv c m) {i base : Nat} {x : Entry}
    (hx : x ∈ (m.drain kernel i base).2.1) : x.launch ∈ m.inFlight ∧ x.found ∈ kernel x.launch := by
  rw [Miner.drain_entries, h.buffer_nil, List.nil_append] at hx
  obtain ⟨l, hl, hxl⟩ := List.mem_flatMap.mp (List.mem_of_mem_take hx)
  obtain ⟨f, hf, rfl⟩ := List.mem_map.mp hxl
  exact ⟨(List.mem_filter.mp hl).1, hf⟩

theorem NonceInv.nextBase (h : NonceInv c N m) (hwin : c.numStreams * c.batchSize < 2 ^ 32)
    {l : Launch} (hl : l ∈ m.inFlight) (ht : l.tick + c.numStreams = m.tick) :
    m.nextBase c = l.nonce := by
  have hS := c.numStreams_pos
  have hc := h.nonce l hl
  rw [show m.tick - (l.tick + 1) = c.numStreams - 1 by omega] at hc
  have hsum : (c.numStreams - 1) * c.batchSize + c.batchSize = c.numStreams * c.batchSize := by
    rw [← Nat.succ_mul, Nat.succ_eq_add_one, Nat.sub_add_cancel hS]
  have hw : u64 c.window = c.numStreams * c.batchSize := by
    rw [Config.window, u32_of_lt hwin, u64_of_lt (by omega)]
  have hsub : l.nonce + (c.numStreams - 1) * c.batchSize +
      (c.batchSize + (2 ^ 64 - c.numStreams * c.batchSize)) = l.nonce + 2 ^ 64 := by
    rw [Nat.add_assoc, ← Nat.add_assoc _ c.batchSize, hsum, Nat.add_sub_cancel' (by omega)]
  rw [Miner.nextBase, sub64, hw, ← hc, u64_add_u64, Nat.add_assoc (u64 _), u64_add_u64, hsub, u64,
    Nat.add_mod_right, Nat.mod_eq_of_lt (h.nonce_lt l hl)]

theorem NonceInv.iterate (hI : Inv c m) (h : NonceInv c N m) (w : WorkPackage) :
    NonceInv c N (m.iterate kernel eval c w).1 := by
  obtain ⟨hH, -, hS⟩ := m.iterate_frame kernel eval c w
  obtain ⟨hW, -, -⟩ := m.iterate_flags kernel eval c w
  have ht := m.iterate_tick kernel eval c w
  have hn := m.iterate_currentNonce kernel eval c w
  refine ⟨hS.trans h.startingNonce, fun l hl => ?_, fun l hl => ?_, fun l hl => ?_,
    fun w' hw' => ?_⟩
  · rcases m.mem_iterate_inFlight kernel eval c w hl with hl | rfl
    · exact h.nonce_lt l hl
    · exact u64_lt _
  · rw [ht, hn]
    rcases m.mem_iterate_inFlight kernel eval c w hl with hl | rfl
    · have hlt := (hI.window l hl).2.1
      rw [show m.tick + 1 - (l.tick + 1) = m.tick - (l.tick + 1) + 1 by omega, Nat.add_one_mul,
        ← Nat.add_assoc, ← u64_add_u64, h.nonce l hl]
    · simp [Miner.nextLaunch]
  · rw [hH]
    rcases m.mem_iterate_inFlight kernel eval c w hl with hl | rfl
    · exact h.header l hl
    · rfl
  · rw [hH]
    rw [hW] at hw'
    split_ifs at hw'
    exact h.work w' hw'

theorem NonceInv.begin (h : NonceInv c N m) {header target : Nat}
    {ethStratum : Bool} {startN startNonce : Nat} {w : WorkPackage}
    (ha : (Action.search header target ethStratum startN startNonce w).Consistent N) :
    NonceInv c N (m.begin kernel c header target ethStratum startN startNonce w).1 := by
  obtain ⟨hwh, hN⟩ := ha
  obtain ⟨hH, hS⟩ := m.begin_header_startingNonce kernel c w header target ethStratum startN
    startNonce
  have hF := m.begin_inFlight kernel c w header target ethStratum startN startNonce
  have hW := (m.begin_flags kernel c w header target ethStratum startN startNonce).1
  have hs :
      (m.begin kernel c header target ethStratum startN startNonce w).1.startingNonce = N := by
    rw [hS]
    cases ethStratum
    · exact h.startingNonce
    · exact hN rfl
  cases hr : m.restarts header target
  · -- no restart: the launches, the counter, the tick and the header stay
    obtain ⟨rfl, -⟩ := Miner.restarts_eq_false hr
    rw [hr, if_neg Bool.false_ne_true] at hF
    have hn :=
      m.begin_currentNonce kernel c w m.currentHeader target ethStratum startN startNonce hr
      fun he => h.startingNonce.trans (hN he).symm
    have ht := m.begin_tick kernel c w m.currentHeader target ethStratum startN startNonce
    refine ⟨hs, ?_, ?_, ?_, ?_⟩ <;> simp only [hF, hn, ht, hH]
    · exact h.nonce_lt
    · exact h.nonce
    · exact h.header
    · intro w' hw'
      rw [hW, Option.some.injEq] at hw'
      rw [← hw', hwh]
  · -- a restart: no launch in flight
    rw [hr, if_pos rfl] at hF
    refine ⟨hs, ?_, ?_, ?_, fun w' hw' => ?_⟩ <;> try simp [hF]
    rw [hW, Option.some.injEq] at hw'
    rw [← hw', hH, hwh]

theorem NonceInv.step (hI : Inv c m) (h : NonceInv c N m) {a : Action} (ha : a.Consistent N) :
    NonceInv c N (m.step kernel eval c a).1 := by
  cases a with
  | search header target ethStratum startN startNonce w =>
    simp only [Miner.step]
    split_ifs
    · exact h.begin kernel ha
    · exact h
  | iterate =>
    simp only [Miner.step]
    split
    · exact h.iterate kernel eval hI _
    · exact h
  | kick | stop => exact ⟨h.startingNonce, h.nonce_lt, h.nonce, h.header, h.work⟩

/-! ### What a step hands out -/

theorem Miner.read_of_iterate {w : WorkPackage} {i t base : Nat} {es : List Entry}
    (he : HostEvent.read i t base es ∈ (m.iterate kernel eval c w).2) :
    base = m.nextBase c ∧
      es = (m.drain kernel ((m.currentIndex + 1) % c.numStreams) (m.nextBase c)).2.1 := by
  rw [Miner.iterate_events] at he
  rcases List.mem_append.mp he with he | he
  · split_ifs at he
    · rw [Miner.drain_events] at he
      split_ifs at he <;> simp only [List.mem_append, List.mem_cons, HostEvent.read.injEq,
        List.not_mem_nil, or_false, reduceCtorEq, false_or] at he <;> exact ⟨he.2.2.1, he.2.2.2⟩
    · cases he
  · rcases List.mem_cons.mp he with he | he
    · cases he
    · split_ifs at he
      · exact False.elim (isFarmCall_of_mem_proofs eval he)
      · cases he

theorem Miner.submit_of_iterate {w : WorkPackage} {sol : Solution}
    (he : HostEvent.submit sol ∈ (m.iterate kernel eval c w).2) :
    HostEvent.submit sol ∈ proofs eval c w (m.nextBase c) m.newWork
      (m.drain kernel ((m.currentIndex + 1) % c.numStreams) (m.nextBase c)).2.1 := by
  rw [Miner.iterate_events] at he
  rcases List.mem_append.mp he with he | he
  · split_ifs at he
    · rw [Miner.drain_events] at he
      split_ifs at he <;> simp at he
    · cases he
  · rcases List.mem_cons.mp he with he | he
    · cases he
    · split_ifs at he
      · exact he
      · cases he

theorem Miner.inFlight_step {a : Action} {l : Launch}
    (hl : l ∈ (m.step kernel eval c a).1.inFlight) :
    l ∈ m.inFlight ∨ HostEvent.launch l ∈ (m.step kernel eval c a).2 := by
  cases a with
  | search header target ethStratum startN startNonce w =>
    simp only [Miner.step] at hl ⊢
    split_ifs at hl ⊢
    · rw [Miner.begin_inFlight] at hl
      split_ifs at hl
      · simp at hl
      · exact .inl hl
    · exact .inl hl
  | iterate =>
    simp only [Miner.step] at hl ⊢
    cases hw : m.work with
    | none => simp only [hw] at hl; exact .inl hl
    | some w =>
      simp only [hw] at hl ⊢
      rcases m.mem_iterate_inFlight kernel eval c w hl with hl | rfl
      · exact .inl hl
      · right
        rw [Miner.iterate_events]
        exact List.mem_append_right _ (List.mem_cons_self _ _)
  | kick | stop => exact .inl hl

/-- The drains and farm calls of one step, from a state with both invariants: a drain's
`nonce_base` is the nonce of each launch it reads, and a solution carries `nonce + gid` for a
launch in flight whose kernel reported `gid`, on the header of the solution's package. -/
theorem NonceInv.step_credits (hI : Inv c m) (h : NonceInv c N m)
    (hwin : c.numStreams * c.batchSize < 2 ^ 32) (a : Action) :
    (∀ i t base es, HostEvent.read i t base es ∈ (m.step kernel eval c a).2 → ∀ x ∈ es,
      base = x.launch.nonce) ∧
    ∀ sol, HostEvent.submit sol ∈ (m.step kernel eval c a).2 → ∃ l ∈ m.inFlight, ∃ f ∈ kernel l,
      sol.nonce = u64 (l.nonce + f.gid) ∧ l.header = sol.work.header := by
  -- a drain of the next iteration reads launches in flight, with the right `nonce_base`
  have hdrain : ∀ x ∈ (m.drain kernel ((m.currentIndex + 1) % c.numStreams) (m.nextBase c)).2.1,
      x.launch ∈ m.inFlight ∧ x.found ∈ kernel x.launch ∧ m.nextBase c = x.launch.nonce :=
    fun x hx => ⟨(hI.mem_drain_results kernel hx).1, (hI.mem_drain_results kernel hx).2,
      h.nextBase hwin (hI.mem_drain_results kernel hx).1 (hI.mem_drain_entries kernel hx).2⟩
  cases a with
  | iterate =>
    simp only [Miner.step]
    cases hw : m.work with
    | none => exact ⟨fun _ _ _ _ he => (by cases he), fun _ he => (by cases he)⟩
    | some w =>
      refine ⟨fun i t base es he x hx => ?_, fun sol hs => ?_⟩
      · obtain ⟨rfl, rfl⟩ := m.read_of_iterate kernel eval he
        exact (hdrain x hx).2.2
      · obtain ⟨hsw, e, he, hn⟩ := mem_proofs_submit eval (m.submit_of_iterate kernel eval hs)
        obtain ⟨hl, hf, hb⟩ := hdrain e he
        refine ⟨e.launch, hl, e.found, hf, hb ▸ hn, ?_⟩
        rw [h.header _ hl, hsw, h.work w hw]
  | search header target ethStratum startN startNonce w =>
    -- a call only synchronises and clears
    have hev :
        ∀ e ∈ (m.step kernel eval c (.search header target ethStratum startN startNonce w)).2,
          e = .synchronizeAll ∨ ∃ i < c.numStreams, e = .clear i := by
      intro e he
      simp only [Miner.step] at he
      split_ifs at he
      · rw [Miner.begin_events] at he
        split_ifs at he
        · simpa [Miner.resetBuffers, eq_comm] using he
        · cases he
      · cases he
    refine ⟨fun i t base es he => ?_, fun sol he => ?_⟩ <;>
      rcases hev _ he with h | ⟨_, -, h⟩ <;> cases h
  | kick | stop => exact ⟨fun _ _ _ _ he => (by cases he), fun _ he => (by cases he)⟩

/-! ### Whole runs -/

theorem NonceInv.run (hI : Inv c m) (h : NonceInv c N m)
    (hwin : c.numStreams * c.batchSize < 2 ^ 32) {pre : List HostEvent}
    (hpre : ∀ l ∈ m.inFlight, HostEvent.launch l ∈ pre) (as : List Action)
    (has : ∀ a ∈ as, a.Consistent N) :
    (∀ i t base es, HostEvent.read i t base es ∈ (m.run kernel eval c as).2 → ∀ x ∈ es,
      base = x.launch.nonce) ∧
    ∀ sol, HostEvent.submit sol ∈ (m.run kernel eval c as).2 →
      ∃ l, HostEvent.launch l ∈ pre ++ (m.run kernel eval c as).2 ∧ ∃ f ∈ kernel l,
        sol.nonce = u64 (l.nonce + f.gid) ∧ l.header = sol.work.header := by
  induction as generalizing m pre with
  | nil => exact ⟨fun _ _ _ _ he => (by cases he), fun _ he => (by cases he)⟩
  | cons a as ih =>
    obtain ⟨hr, hs⟩ := h.step_credits kernel eval hI hwin a
    have hpre' : ∀ l ∈ (m.step kernel eval c a).1.inFlight,
        HostEvent.launch l ∈ pre ++ (m.step kernel eval c a).2 := fun l hl =>
      (m.inFlight_step kernel eval hl).elim (fun hl => List.mem_append_left _ (hpre l hl))
        (List.mem_append_right _)
    obtain ⟨hr', hs'⟩ := ih (hI.step kernel eval a)
      (h.step kernel eval hI (has a (List.mem_cons_self _ _))) hpre'
      fun a ha => has a (List.mem_cons_of_mem _ ha)
    simp only [Miner.run, List.mem_append] at hr' hs' ⊢
    refine ⟨fun i t base es he => he.elim (hr i t base es) (hr' i t base es), fun sol hsol => ?_⟩
    rcases hsol with hsol | hsol
    · obtain ⟨l, hl, rest⟩ := hs sol hsol
      exact ⟨l, .inl (hpre l hl), rest⟩
    · obtain ⟨l, hl, rest⟩ := hs' sol hsol
      exact ⟨l, by simpa only [List.mem_append, or_assoc] using hl, rest⟩

/-- **`search` credits the nonces its kernel found.** For every kernel, host check and
configuration with `s_numStreams * batch_size < 2 ^ 32`, and every run from the state
`cuda_init` leaves in which each `search` call passes the header of its package and each
ethereum-stratum call the start nonce `N`: the `nonce_base` of every drain is the nonce of each
launch whose slots it reads, and every solution handed to the farm carries `nonce + gid`
(modulo `2 ^ 64`) for a launch of the run whose kernel reported `gid`, searched on the header of
the solution's package. -/
theorem search_credits_found_nonces (kernel : Launch → List Found)
    (eval : Int → Nat → Nat → Nat × Nat) (c : Config) (N : Nat) (as : List Action)
    (hwin : c.numStreams * c.batchSize < 2 ^ 32) (has : ∀ a ∈ as, a.Consistent N) :
    (∀ i t base es, HostEvent.read i t base es ∈ ((Miner.init N).run kernel eval c as).2 →
      ∀ x ∈ es, base = x.launch.nonce) ∧
    ∀ sol, HostEvent.submit sol ∈ ((Miner.init N).run kernel eval c as).2 →
      ∃ l, HostEvent.launch l ∈ ((Miner.init N).run kernel eval c as).2 ∧ ∃ f ∈ kernel l,
        sol.nonce = u64 (l.nonce + f.gid) ∧ l.header = sol.work.header := by
  have hpre : ∀ l ∈ (Miner.init N).inFlight, HostEvent.launch l ∈ ([] : List HostEvent) := by
    simp [Miner.init]
  simpa only [List.nil_append] using
    NonceInv.run kernel eval (Inv.init c N) (NonceInv.init c N) hwin hpre as has

/-- The default configuration, one ethereum-stratum call and four iterations, with a kernel that
reports `gid` 3 for the launch of iteration 1, which the drain of iteration 3 reads. -/
theorem search_credits_found_nonces_defaults :
    Config.defaults.numStreams * Config.defaults.batchSize < 2 ^ 32 ∧
    (∀ a ∈ [Action.search 5 7 true 0 0 ⟨5, 0, 1, 0, 0, 0, 0, 0⟩, .iterate, .iterate, .iterate,
      .iterate], a.Consistent 0) ∧
    ((∀ i t base es, HostEvent.read i t base es ∈ ((Miner.init 0).run
        (fun l : Launch => if l.tick = 1 then [(⟨3, 0⟩ : Found)] else []) (fun _ _ _ => (0, 0))
        Config.defaults [.search 5 7 true 0 0 ⟨5, 0, 1, 0, 0, 0, 0, 0⟩, .iterate, .iterate,
          .iterate, .iterate]).2 → ∀ x ∈ es, base = x.launch.nonce) ∧
    ∀ sol, HostEvent.submit sol ∈ ((Miner.init 0).run
        (fun l : Launch => if l.tick = 1 then [(⟨3, 0⟩ : Found)] else []) (fun _ _ _ => (0, 0))
        Config.defaults [.search 5 7 true 0 0 ⟨5, 0, 1, 0, 0, 0, 0, 0⟩, .iterate, .iterate,
          .iterate, .iterate]).2 →
      ∃ l, HostEvent.launch l ∈ ((Miner.init 0).run
        (fun l : Launch => if l.tick = 1 then [(⟨3, 0⟩ : Found)] else []) (fun _ _ _ => (0, 0))
        Config.defaults [.search 5 7 true 0 0 ⟨5, 0, 1, 0, 0, 0, 0, 0⟩, .iterate, .iterate,
          .iterate, .iterate]).2 ∧
        ∃ f ∈ (if l.tick = 1 then [(⟨3, 0⟩ : Found)] else []),
          sol.nonce = u64 (l.nonce + f.gid) ∧ l.header = sol.work.header) :=
  ⟨by decide, by simp [Action.Consistent],
    search_credits_found_nonces (fun l : Launch => if l.tick = 1 then [(⟨3, 0⟩ : Found)] else [])
      (fun _ _ _ => (0, 0)) Config.defaults 0
      [.search 5 7 true 0 0 ⟨5, 0, 1, 0, 0, 0, 0, 0⟩, .iterate, .iterate, .iterate, .iterate]
      (by decide) (by simp [Action.Consistent])⟩

end ProgPowMiner.Cuda
