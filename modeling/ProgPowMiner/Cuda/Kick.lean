import ProgPowMiner.Cuda.Pipeline
import ProgPowMiner.Cuda.NonceSpace

/-!
# Kicks and the end of `search`

`kick_miner` sets `m_new_work`; `search` reads it twice in each iteration once the pipeline is
full (`m_current_index >= s_numStreams`): as the stale flag of the solutions it submits, and in
the compare-and-swap that clears it and leaves the loop.

* `kick_exits_within`: from any point of a `search` call at which a kick or a stop request is
  pending, the call issues at most `max 1 (S - m_current_index)` further launches, whatever
  kicks and stop requests follow, and exactly that many when the loop runs on: during the
  `S - 1` warm-up iterations after a reset the flag is not looked at.
* `stale_flag_lost_on_reentry`: a kick consumed by the compare-and-swap that ends a call leaves
  launches issued before it in flight; when the next call keeps the header and the target (no
  reset), its first drain submits their results with `stale = false`.
-/

namespace ProgPowMiner.Cuda

variable (kernel : Launch → List Found) (eval : Int → Nat → Nat → Nat × Nat) (c : Config)

/-! ### How long a call runs after a kick -/

theorem Miner.run_idle {m : Miner} (hw : m.work = none) (as : List Action)
    (has : ∀ a ∈ as, a.isSearch = false) :
    launches (m.run kernel eval c as).2 = [] ∧ (m.run kernel eval c as).1.work = none := by
  induction as generalizing m with
  | nil => exact ⟨rfl, hw⟩
  | cons a as ih =>
    have ih' := fun m' hw' => @ih m' hw' fun a ha => has a (List.mem_cons_of_mem _ ha)
    cases a with
    | search => cases has _ (List.mem_cons_self _ _)
    | iterate => simpa [Miner.run, Miner.step, hw] using ih' m hw
    | kick => simpa [Miner.run, Miner.step] using ih' { m with newWork := true } hw
    | stop => simpa [Miner.run, Miner.step] using ih' { m with stopping := true } hw

theorem Miner.iterate_pending {m : Miner} (w : WorkPackage)
    (hp : m.newWork = true ∨ m.stopping = true) :
    let r := m.iterate kernel eval c w
    (c.numStreams ≤ m.currentIndex + 1 → r.1.work = none) ∧
      (m.currentIndex + 1 < c.numStreams →
        r.1.work = m.work ∧ r.1.currentIndex = m.currentIndex + 1 ∧
          (r.1.newWork = true ∨ r.1.stopping = true)) := by
  obtain ⟨h1, h2, h3⟩ := m.iterate_flags kernel eval c w
  refine ⟨fun hS => by simp [h1, hS, hp],
    fun hS => ⟨?_, m.iterate_currentIndex kernel eval c w, ?_⟩⟩
  · simp [h1, show ¬(c.numStreams ≤ m.currentIndex + 1) by omega]
  · simpa [h2, h3, show ¬(c.numStreams ≤ m.currentIndex + 1) by omega] using hp

/-- Every run without a new `search` call, from a point inside a call with a kick or a stop
request pending, launches at most `max 1 (S - m_current_index)` times. -/
theorem Miner.launches_after_kick {m : Miner} {w : WorkPackage} (hw : m.work = some w)
    (hp : m.newWork = true ∨ m.stopping = true) (as : List Action)
    (has : ∀ a ∈ as, a.isSearch = false) :
    (launches (m.run kernel eval c as).2).length ≤ max 1 (c.numStreams - m.currentIndex) := by
  induction as generalizing m with
  | nil => simp [Miner.run]
  | cons a as ih =>
    have has' : ∀ a ∈ as, a.isSearch = false := fun a ha => has a (List.mem_cons_of_mem _ ha)
    cases a with
    | search => cases has _ (List.mem_cons_self _ _)
    | kick => simpa [Miner.run, Miner.step] using @ih { m with newWork := true } hw (by simp) has'
    | stop => simpa [Miner.run, Miner.step] using @ih { m with stopping := true } hw (by simp) has'
    | iterate =>
      obtain ⟨hexit, hstay⟩ := m.iterate_pending kernel eval c w hp
      simp only [Miner.run, Miner.step, hw, launches_append, List.length_append,
        Miner.launches_iterate, List.length_singleton]
      by_cases hS : c.numStreams ≤ m.currentIndex + 1
      · rw [(Miner.run_idle kernel eval c (hexit hS) as has').1]
        simp
      · obtain ⟨hw', hi', hp'⟩ := hstay (by omega)
        have := ih (hw'.trans hw) hp' has'
        rw [hi'] at this
        omega

theorem Miner.run_iterate_after_kick {m : Miner} {w : WorkPackage} (hw : m.work = some w)
    (hp : m.newWork = true ∨ m.stopping = true) (n : Nat)
    (hn : n ≤ max 1 (c.numStreams - m.currentIndex)) :
    (launches (m.run kernel eval c (List.replicate n .iterate)).2).length = n ∧
      (m.run kernel eval c (List.replicate n .iterate)).1.work =
        if n < max 1 (c.numStreams - m.currentIndex) then some w else none := by
  induction n generalizing m with
  | zero => simp [Miner.run, hw]
  | succ n ih =>
    obtain ⟨hexit, hstay⟩ := m.iterate_pending kernel eval c w hp
    simp only [List.replicate_succ, Miner.run, Miner.step, hw, launches_append, List.length_append,
      Miner.launches_iterate, List.length_singleton]
    by_cases hS : c.numStreams ≤ m.currentIndex + 1
    · obtain rfl : n = 0 := by omega
      simp only [List.replicate_zero, Miner.run, launches_nil, List.length_nil, Nat.zero_add,
        hexit hS, true_and]
      rw [if_neg (by omega)]
    · obtain ⟨hw', hi', hp'⟩ := hstay (by omega)
      obtain ⟨h1, h2⟩ := ih (hw'.trans hw) hp' (by rw [hi']; omega)
      rw [h1, h2, hi']
      refine ⟨by omega, ?_⟩
      congr 1
      simp only [eq_iff_iff]
      omega

/-- **A kick ends `search` within the warm-up, not within one launch.** For every stream count,
kernel and host check, from every point of a `search` call at which `m_new_work` or a stop
request is pending: every run without a new call issues at most `max 1 (S - m_current_index)`
further launches, and the loop left to itself issues exactly that many before it returns. After
a reset the index of the `j`-th launch is `j`, so a kick after the first launch of a call with
`S >= 3` streams is followed by `S - 1 >= 2` launches. -/
theorem kick_exits_within (m : Miner) (w : WorkPackage) (hw : m.work = some w)
    (hp : m.newWork = true ∨ m.stopping = true) :
    (∀ as : List Action, (∀ a ∈ as, a.isSearch = false) →
      (launches (m.run kernel eval c as).2).length ≤ max 1 (c.numStreams - m.currentIndex)) ∧
    (launches (m.run kernel eval c
        (List.replicate (max 1 (c.numStreams - m.currentIndex)) .iterate)).2).length =
      max 1 (c.numStreams - m.currentIndex) ∧
    (m.run kernel eval c (List.replicate (max 1 (c.numStreams - m.currentIndex)) .iterate)).1.work =
      none ∧
    ∀ n < max 1 (c.numStreams - m.currentIndex),
      (m.run kernel eval c (List.replicate n .iterate)).1.work = some w := by
  obtain ⟨hl, hN⟩ := Miner.run_iterate_after_kick kernel eval c hw hp _ le_rfl
  refine ⟨Miner.launches_after_kick kernel eval c hw hp, hl, by simpa using hN, fun n hn => ?_⟩
  simpa [hn] using (Miner.run_iterate_after_kick kernel eval c hw hp n hn.le).2

/-- Three streams: a kick after the first launch of a call is followed by two more launches, and
the call is still running after the first of them. -/
theorem kick_exits_within_three_streams :
    (launches ((Miner.init 0).run (fun _ => []) (fun _ _ _ => (0, 0))
      ⟨3, 1024, 512, false, by decide, by decide⟩ [.search 5 7 false 0 0 .empty, .iterate]).2).length
      = 1 ∧
    (launches (((Miner.init 0).run (fun _ => []) (fun _ _ _ => (0, 0))
      ⟨3, 1024, 512, false, by decide, by decide⟩
        [.search 5 7 false 0 0 .empty, .iterate, .kick]).1.run (fun _ => []) (fun _ _ _ => (0, 0))
          ⟨3, 1024, 512, false, by decide, by decide⟩ (List.replicate 2 .iterate)).2).length = 2 ∧
    (((Miner.init 0).run (fun _ => []) (fun _ _ _ => (0, 0))
      ⟨3, 1024, 512, false, by decide, by decide⟩
        [.search 5 7 false 0 0 .empty, .iterate, .kick]).1.run (fun _ => []) (fun _ _ _ => (0, 0))
          ⟨3, 1024, 512, false, by decide, by decide⟩ [.iterate]).1.work = some .empty := by
  have h := kick_exits_within (fun _ => []) (fun _ _ _ => (0, 0))
    ⟨3, 1024, 512, false, by decide, by decide⟩ ((Miner.init 0).run (fun _ => [])
      (fun _ _ _ => (0, 0)) ⟨3, 1024, 512, false, by decide, by decide⟩
        [.search 5 7 false 0 0 .empty, .iterate, .kick]).1 .empty rfl (Or.inl rfl)
  exact ⟨rfl, h.2.1, h.2.2.2 1 (by decide)⟩

/-! ### The stale flag after a consumed kick -/

theorem Miner.submit_mem_iterate {m : Miner} {w : WorkPackage} {sol : Solution}
    (h : HostEvent.submit sol ∈ (m.iterate kernel eval c w).2) : sol.stale = m.newWork := by
  rw [Miner.iterate_events] at h
  rcases List.mem_append.mp h with h | h
  · split_ifs at h
    · rw [Miner.drain_events] at h
      split_ifs at h <;> simp at h
    · cases h
  · rcases List.mem_cons.mp h with h | h
    · cases h
    · split_ifs at h
      · obtain ⟨x, -, hx⟩ := List.mem_map.mp h
        dsimp only at hx
        split_ifs at hx <;> cases hx <;> rfl
      · cases h

theorem Miner.iterate_after_kick {m : Miner} {w : WorkPackage} (hw : m.work = some w)
    (hS : c.numStreams ≤ m.currentIndex + 1) :
    let r := ((m.step kernel eval c .kick).1.step kernel eval c .iterate).1
    r.work = none ∧ r.newWork = false ∧ r.tick = m.tick + 1 := by
  obtain ⟨hw2, hn2, -⟩ := ({ m with newWork := true } : Miner).iterate_flags kernel eval c w
  simp only [Miner.step, hw]
  exact ⟨by simpa [hS, hw] using hw2, by simpa [hS, hw] using hn2, Miner.iterate_tick ..⟩

theorem Miner.step_search_idle {m : Miner} (hw : m.work = none) (header target : Nat)
    (ethStratum : Bool) (startN startNonce : Nat) (w : WorkPackage) :
    let r := (m.step kernel eval c (.search header target ethStratum startN startNonce w)).1
    r.work = some w ∧ r.newWork = m.newWork ∧ r.tick = m.tick := by
  simp only [Miner.step, hw, Option.isNone_none, if_true]
  exact ⟨(m.begin_flags kernel c w header target ethStratum startN startNonce).1,
    (m.begin_flags kernel c w header target ethStratum startN startNonce).2.1, Miner.begin_tick ..⟩

/-- **A consumed kick loses the stale flag.** For every configuration with at least two streams,
kernel and host check, and every state of a running `search` call (with the pipelining invariant)
whose pipeline is full: a kick, one iteration (whose compare-and-swap
consumes the kick and ends the call) and a new call with the same header and target. The first
iteration of the new call drains only launches issued before the kick (ghost `tick` below the
kick's), and every solution it submits carries `stale = false`. -/
theorem stale_flag_lost_on_reentry (m : Miner) (w w' : WorkPackage) (ethStratum : Bool)
    (startN startNonce : Nat) (hI : Inv c m) (hw : m.work = some w)
    (hS : c.numStreams ≤ m.currentIndex + 1) (h2 : 2 ≤ c.numStreams) :
    (∀ i t base es, HostEvent.read i t base es ∈
        ((m.run kernel eval c [.kick, .iterate,
          .search m.currentHeader m.currentTarget ethStratum startN startNonce w']).1.run
            kernel eval c [.iterate]).2 → ∀ x ∈ es, x.launch.tick < m.tick) ∧
    ∀ sol, HostEvent.submit sol ∈
        ((m.run kernel eval c [.kick, .iterate,
          .search m.currentHeader m.currentTarget ethStratum startN startNonce w']).1.run
            kernel eval c [.iterate]).2 → sol.stale = false := by
  -- the kick and the iteration that consumes it, then the new call
  obtain ⟨hw2, hn2, ht2⟩ := Miner.iterate_after_kick kernel eval c hw hS
  obtain ⟨hw3, hn3, ht3⟩ := Miner.step_search_idle kernel eval c hw2 m.currentHeader
    m.currentTarget ethStratum startN startNonce w'
  have hI3 := ((hI.step kernel eval .kick).step kernel eval .iterate).step kernel eval
    (.search m.currentHeader m.currentTarget ethStratum startN startNonce w')
  set m3 := (((m.step kernel eval c .kick).1.step kernel eval c .iterate).1.step kernel eval c
    (.search m.currentHeader m.currentTarget ethStratum startN startNonce w')).1
  -- what is left of the run is the first iteration of the new call
  have hrun : ((m.run kernel eval c [.kick, .iterate,
      .search m.currentHeader m.currentTarget ethStratum startN startNonce w']).1.run
        kernel eval c [.iterate]).2 = (m3.iterate kernel eval c w').2 := by
    show (m3.run kernel eval c [.iterate]).2 = _
    simp [Miner.run, Miner.step, hw3]
  rw [hrun]
  obtain ⟨-, hd, -, hb, -⟩ := hI3.step_trace kernel eval .iterate
  simp only [Miner.step, hw3] at hd hb
  refine ⟨fun i t base es he x hx => ?_, fun sol hs => ?_⟩
  · have ht := hb t (List.mem_filterMap.mpr ⟨_, he, rfl⟩)
    have hx := (hd i t base es he x hx).2
    rw [Miner.iterate_tick, ht3, ht2] at ht
    omega
  · rw [Miner.submit_mem_iterate kernel eval c hs, hn3, hn2]

/-- The default configuration (two streams), a kernel that reports `gid` 3 for the launch of
iteration 1, and a host check that accepts it: a kick after iteration 2 is consumed in
iteration 3, and the re-entered call submits the result of iteration 1's launch as fresh. -/
theorem stale_flag_lost_on_reentry_defaults :
    ∃ (m : Miner) (sol : Solution) (x : Entry) (base : Nat),
      m = ((Miner.init 0).run (fun l => if l.tick = 1 then [⟨3, 0⟩] else [])
        (fun _ _ _ => (0, 0)) Config.defaults
          [.search 5 7 false 0 0 ⟨0, -1, 1, 0, 0, 0, 0, -1⟩, .iterate, .iterate]).1 ∧
      HostEvent.read 0 3 base [x] ∈ ((m.run (fun l => if l.tick = 1 then [⟨3, 0⟩] else [])
        (fun _ _ _ => (0, 0)) Config.defaults
          [.kick, .iterate, .search 5 7 false 0 0 ⟨0, -1, 1, 0, 0, 0, 0, -1⟩]).1.run
            (fun l => if l.tick = 1 then [⟨3, 0⟩] else []) (fun _ _ _ => (0, 0)) Config.defaults
              [.iterate]).2 ∧
      x.launch.tick < m.tick ∧
      HostEvent.submit sol ∈ ((m.run (fun l => if l.tick = 1 then [⟨3, 0⟩] else [])
        (fun _ _ _ => (0, 0)) Config.defaults
          [.kick, .iterate, .search 5 7 false 0 0 ⟨0, -1, 1, 0, 0, 0, 0, -1⟩]).1.run
            (fun l => if l.tick = 1 then [⟨3, 0⟩] else []) (fun _ _ _ => (0, 0)) Config.defaults
              [.iterate]).2 ∧
      sol.stale = false := by
  have hI := (((Inv.init Config.defaults 0).step (fun l => if l.tick = 1 then [⟨3, 0⟩] else [])
    (fun _ _ _ => (0, 0)) (.search 5 7 false 0 0 ⟨0, -1, 1, 0, 0, 0, 0, -1⟩)).step
      (fun l => if l.tick = 1 then [⟨3, 0⟩] else []) (fun _ _ _ => (0, 0)) .iterate).step
        (fun l => if l.tick = 1 then [⟨3, 0⟩] else []) (fun _ _ _ => (0, 0)) .iterate
  have h := stale_flag_lost_on_reentry (fun l => if l.tick = 1 then [⟨3, 0⟩] else [])
    (fun _ _ _ => (0, 0)) Config.defaults _ ⟨0, -1, 1, 0, 0, 0, 0, -1⟩ ⟨0, -1, 1, 0, 0, 0, 0, -1⟩
    false 0 0 hI rfl (by decide) (by decide)
  refine ⟨_, ⟨2 ^ 20 + 3, 0, ⟨0, -1, 1, 0, 0, 0, 0, -1⟩, false⟩, ⟨⟨1, 0, 2 ^ 20, 5, 7⟩, ⟨3, 0⟩⟩,
    2 ^ 20, rfl, by decide, h.1 0 3 (2 ^ 20) _ (by decide) _ (List.mem_singleton_self _), by decide,
    h.2 _ (by decide)⟩

end ProgPowMiner.Cuda
