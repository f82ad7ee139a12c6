import ProgPowMiner.Stratum.Client

/-!
# What a `mining.notify` carries into a submission

The job id and (stratum, ethproxy) the share target travel through the client as `h256`s: in
through `FixedHash<32>`, back as `FixedHash::hex()`, 64 lowercase digits.

* `submitted_job_id`: an ethereum-stratum job id of at most 64 hex digits comes back lowercased;
  a stratum one comes back as 64 characters, itself only when it had 64 lowercase digits.
* `notify_share_target_padding`: the coinmine.pl fix keeps the value of a short `0x` target and
  drops the two leading digits of an unprefixed one.
-/

namespace ProgPowMiner.Stratum

variable (toEpoch : Nat → Except Throw Int)

/-! ### The packages the notify handlers deliver -/

theorem Session.notifyEthereumStratum_job {s s' : Session} {params : Json} {job : String}
    {effs : List Effect} (h : s.notifyEthereumStratum toEpoch params job = .ok (s', effs))
    {w : WorkPackage} (hw : Effect.workReceived w ∈ effs) :
    w.jobLen = job.length ∧ h256 (String.mk (resize64 job.data)) = .ok w.job := by
  simp only [Session.notifyEthereumStratum, bind_eq_ok] at h
  obtain ⟨seed, -, header, -, height, -, h⟩ := h
  split_ifs at h
  · simp only [bind_eq_ok, pure_eq_ok, Prod.mk.injEq] at h
    obtain ⟨_, -, _, -, _, -, _, -, jobH, hj, -, rfl⟩ := h
    cases List.mem_singleton.mp hw
    exact ⟨rfl, hj⟩
  · simp only [pure_eq_ok, Prod.mk.injEq] at h
    obtain ⟨-, rfl⟩ := h
    cases hw

theorem Session.notifyStratum_target_job {s s' : Session} {params : Json} {index : Nat}
    {job : String} {effs : List Effect}
    (h : s.notifyStratum toEpoch params index job = .ok (s', effs)) {w : WorkPackage}
    (hw : Effect.workReceived w ∈ effs) :
    ∃ t t', (params.getIdx (index + 2) (.str "")).asString = .ok t ∧ coinmineFix t.data = .ok t' ∧
      h256 (String.mk t') = .ok w.boundary ∧ h256 job = .ok w.job := by
  simp only [Session.notifyStratum, bind_eq_ok] at h
  obtain ⟨header, -, seed, -, t, ht, height, -, t', ht', h⟩ := h
  split_ifs at h
  · simp only [bind_eq_ok] at h
    obtain ⟨headerHash, -, h⟩ := h
    split_ifs at h
    · simp only [bind_eq_ok, pure_eq_ok, Prod.mk.injEq] at h
      obtain ⟨_, -, _, -, boundary, hb, jobH, hj, -, rfl⟩ := h
      cases List.mem_singleton.mp hw
      exact ⟨t, t', ht, ht', hb, hj⟩
    · simp only [pure_eq_ok, Prod.mk.injEq] at h
      obtain ⟨-, rfl⟩ := h
      cases hw
  · simp only [pure_eq_ok, Prod.mk.injEq] at h
    obtain ⟨-, rfl⟩ := h
    cases hw

/-! ### The job id -/

/-- `h256` of a job of at most 64 hex digits padded with `0` to 64, written back and cut to the
job's length, is the job in lowercase. -/
theorem resize64_round_trip {J : List Char} (hJ : ∀ ch ∈ J, IsHexDigit ch) (hlen : J.length ≤ 64)
    {v : Nat} (hv : h256 (String.mk (resize64 J)) = .ok v) :
    (toHexN 64 v).take J.length = J.map Char.toLower := by
  obtain ⟨u, hu, hJu⟩ := toHexN_hexValue?_toLower hJ
  have hpad : resize64 J = J ++ List.replicate (64 - J.length) '0' := by
    rw [resize64, List.take_of_length_le hlen]
  have hdig : ∀ ch ∈ resize64 J, IsHexDigit ch := by
    rw [hpad]
    intro ch hch
    rcases List.mem_append.mp hch with h | h
    · exact hJ ch h
    · rw [List.eq_of_mem_replicate h]; decide
  have hfix : fixedHash? 32 (resize64 J) = some (u * 16 ^ (64 - J.length)) := by
    rw [fixedHash?_of_hexDigits hdig (by simp [hpad]; omega), hpad, hexValue?_append_zeros, hu]
    rfl
  simp only [h256, String.data, hfix] at hv
  cases hv
  have htake := take_toHexN J.length (64 - J.length) (u * 16 ^ (64 - J.length))
  rw [Nat.add_sub_cancel' hlen] at htake
  rw [htake, Nat.mul_div_cancel _ (Nat.pos_pow_of_pos _ (by decide)), hJu]

/-- **The job id on the way back.** In the ethereum-stratum dialect, for every job id `J` of at
most 64 hex digits (either case) whose `mining.notify` delivers a package, every submission of a
solution of that package sends `J` in lowercase as its job id; so the id comes back verbatim
exactly when it has no uppercase digit. In the stratum dialect, a job id of 64 hex digits comes
back in lowercase, and a shorter one comes back as 64 characters, never as itself. -/
theorem submitted_job_id :
    (∀ (conn : Connection) (s : Session) (params : Json) (J : String) (r : Session × List Effect)
      (w : WorkPackage) (s2 : Session) (sol : Solution) (line : String),
      conn.version = .ethereumStratum → (∀ ch ∈ J.data, IsHexDigit ch) → J.length ≤ 64 →
      s.notifyEthereumStratum toEpoch params J = .ok r → Effect.workReceived w ∈ r.2 →
      sol.work = w → s2.submitLine conn sol = .ok line →
      ∃ n, line = "\x7b\"id\": 4, \"method\": \"mining.submit\", \"params\": [\"" ++ conn.user ++
        "\",\"" ++ String.mk (J.data.map Char.toLower) ++ "\",\"" ++ String.mk n ++ "\"]\x7d\n") ∧
    ∀ (conn : Connection) (s : Session) (params : Json) (index : Nat) (J : String)
      (r : Session × List Effect) (w : WorkPackage) (s2 : Session) (sol : Solution) (line : String),
      conn.version = .stratum → (∀ ch ∈ J.data, IsHexDigit ch) →
      s.notifyStratum toEpoch params index J = .ok r → Effect.workReceived w ∈ r.2 →
      sol.work = w → s2.submitLine conn sol = .ok line →
      ∃ P rest, line = "\x7b\"id\": 4, \"method\": \"mining.submit\", \"params\": [\"" ++
          conn.user ++ "\",\"" ++ P ++ "\",\"0x" ++ rest ∧
        (J.length = 64 → P = String.mk (J.data.map Char.toLower)) ∧ (J.length < 64 → P ≠ J) := by
  constructor
  · intro conn s params J r w s2 sol line hv hJ hlen hn hw hsol hl
    obtain ⟨hjl, hj⟩ := Session.notifyEthereumStratum_job toEpoch hn hw
    simp only [Session.submitLine, hv, bind_eq_ok, pure_eq_ok] at hl
    obtain ⟨n, -, rfl⟩ := hl
    refine ⟨n, ?_⟩
    rw [hsol, hjl, ← resize64_round_trip hJ hlen hj]
    rfl
  · intro conn s params index J r w s2 sol line hv hJ hn hw hsol hl
    obtain ⟨-, -, -, -, -, hj⟩ := Session.notifyStratum_target_job toEpoch hn hw
    simp only [Session.submitLine, hv, pure_eq_ok] at hl
    subst hl hsol
    refine ⟨hex256 sol.work.job, String.mk (toHex16 sol.nonce) ++ "\",\"0x" ++
      hex256 sol.work.header ++ "\",\"0x" ++ hex256 sol.mixHash ++ "\"]\x7d\n",
      by simp only [String.append_assoc], fun h64 => ?_, fun hlt => ?_⟩
    · obtain ⟨u, hu, hJu⟩ := toHexN_hexValue?_toLower hJ
      have h64' : J.data.length = 2 * 32 := h64
      simp only [h256, fixedHash?_of_hexDigits hJ h64', hu] at hj
      cases hj
      rw [hex256, ← hJu, h64']
    · intro heq
      have h64 : J.length = 64 := by rw [← heq, hex256, String.length_mk, length_toHexN]
      omega

/-- The ethereum-stratum job `ABCD`, notified at difficulty 1 under the extranonce `08c0`: a
solution of the package it delivers is submitted under the job id `abcd`. -/
theorem submitted_job_id_uppercase :
    Session.submitLine ⟨.ethereumStratum, "u", "p"⟩
        ⟨false, false, false, false, false, 1, 0x08c0 * 2 ^ 48, 4, WorkPackage.empty, "", false,
          false⟩
        ⟨0x08c0 * 2 ^ 48 + 5, 0,
          ⟨1, 0, 0xFFFF0000 * 2 ^ 192, 1, 0xabcd * 2 ^ 240, 4, 0x08c0 * 2 ^ 48, 16⟩, false⟩ =
      .ok "\x7b\"id\": 4, \"method\": \"mining.submit\", \"params\": [\"u\",\"abcd\",\"000000000005\"]\x7d\n" ∧
    ∃ n, "\x7b\"id\": 4, \"method\": \"mining.submit\", \"params\": [\"u\",\"abcd\",\"000000000005\"]\x7d\n" =
      "\x7b\"id\": 4, \"method\": \"mining.submit\", \"params\": [\"" ++ "u" ++ "\",\"" ++
        String.mk ("ABCD".data.map Char.toLower) ++ "\",\"" ++ String.mk n ++ "\"]\x7d\n" := by
  have hl : Session.submitLine ⟨.ethereumStratum, "u", "p"⟩
      ⟨false, false, false, false, false, 1, 0x08c0 * 2 ^ 48, 4, WorkPackage.empty, "", false,
        false⟩
      ⟨0x08c0 * 2 ^ 48 + 5, 0,
        ⟨1, 0, 0xFFFF0000 * 2 ^ 192, 1, 0xabcd * 2 ^ 240, 4, 0x08c0 * 2 ^ 48, 16⟩, false⟩ =
      .ok "\x7b\"id\": 4, \"method\": \"mining.submit\", \"params\": [\"u\",\"abcd\",\"000000000005\"]\x7d\n" := by
    rfl
  have hn : Session.notifyEthereumStratum (fun _ => .ok 0)
      ⟨false, false, false, false, false, 1, 0x08c0 * 2 ^ 48, 4, WorkPackage.empty, "", false,
        false⟩
      (.arr [.str "ABCD", .str "0x0000000000000000000000000000000000000000000000000000000000000001",
        .str "0x0000000000000000000000000000000000000000000000000000000000000001", .int 1])
      "ABCD" =
      .ok (⟨false, false, false, false, false, 1, 0x08c0 * 2 ^ 48, 4,
          ⟨1, 0, 0xFFFF0000 * 2 ^ 192, 1, 0xabcd * 2 ^ 240, 4, 0x08c0 * 2 ^ 48, 16⟩, "", false,
          true⟩,
        [.workReceived ⟨1, 0, 0xFFFF0000 * 2 ^ 192, 1, 0xabcd * 2 ^ 240, 4, 0x08c0 * 2 ^ 48, 16⟩]) := by
    simp only [Session.notifyEthereumStratum, Session.resetWorkTimeout, diffToTarget_one]
    rfl
  exact ⟨hl, (submitted_job_id (fun _ => .ok 0)).1 ⟨.ethereumStratum, "u", "p"⟩ _ _ "ABCD" _ _ _ _ _
    rfl (by decide) (by decide) hn (List.mem_singleton_self _) rfl hl⟩

/-! ### The share target -/

theorem hexValue?_drop {D : List Char} {v : Nat} (hv : hexValue? D = some v) (k : Nat) :
    hexValue? (D.drop k) = some (v % 16 ^ (D.length - k)) := by
  rw [← List.take_append_drop k D, hexValue?_append] at hv
  obtain ⟨x, -, hv⟩ := Option.bind_eq_some.mp hv
  obtain ⟨y, hy, rfl⟩ := Option.map_eq_some'.mp hv
  have hlt := List.length_drop k D ▸ hexValue?_lt hy
  rw [hy, List.length_drop, Nat.mul_comm, Nat.mul_add_mod, Nat.mod_eq_of_lt hlt]

theorem coinmineFix_prefixed {D : List Char} (hlen : D.length ≤ 64) :
    coinmineFix ('0' :: 'x' :: D) = .ok ('0' :: 'x' :: (List.replicate (64 - D.length) '0' ++ D)) := by
  unfold coinmineFix
  simp only [List.length_cons]
  split_ifs with h1 h2
  · omega
  · simp only [List.cons_append, List.nil_append, List.drop_succ_cons, List.drop_zero]
    rw [show 66 - (D.length + 1 + 1) = 64 - D.length by omega]
  · rw [show 64 - D.length = 0 by omega]
    rfl

/-- The coinmine.pl fix of a numeral of 2 to 64 digits without `0x` takes its first two digits
for the prefix. -/
theorem coinmineFix_unprefixed {D : List Char} (h2 : 2 ≤ D.length) (hlen : D.length ≤ 64) :
    coinmineFix D = .ok ('0' :: 'x' :: (List.replicate (66 - D.length) '0' ++ D.drop 2)) := by
  rw [coinmineFix, if_pos (by omega), if_neg (by omega)]
  rfl

theorem h256_padded {E : List Char} {v : Nat} (hE : ∀ ch ∈ E, IsHexDigit ch)
    (hv : hexValue? E = some v) {k : Nat} (hk : k + E.length = 64) :
    h256 (String.mk ('0' :: 'x' :: (List.replicate k '0' ++ E))) = .ok v := by
  have hdig : ∀ ch ∈ List.replicate k '0' ++ E, IsHexDigit ch := by
    intro ch hch
    rcases List.mem_append.mp hch with h | h
    · rw [List.eq_of_mem_replicate h]; decide
    · exact hE ch h
  rw [h256, String.data, @fixedHash?_of_prefixed 32 _ hdig (by simp; omega), hexValue?_zeros_append,
    hv]

/-- **The coinmine.pl fix.** For the stratum and ethproxy notify (the `mining.notify` parameters
or the `eth_getWork` result, read from `index`), take a share target that is a numeral of at most
64 hex digits `D` of value `v`. If it is written with `0x`, the boundary of the package delivered
is `v`. If it is written without, the fix takes its first two digits for the `0x`, and the
boundary is `v` without its two leading digits (a numeral of fewer than two digits throws). -/
theorem notify_share_target_padding (s : Session) (params : Json) (index : Nat) (job : String)
    (D : List Char) (v : Nat) (hD : ∀ ch ∈ D, IsHexDigit ch) (hlen : D.length ≤ 64)
    (hv : hexValue? D = some v) (s' : Session) (effs : List Effect) (w : WorkPackage)
    (h : s.notifyStratum toEpoch params index job = .ok (s', effs))
    (hw : Effect.workReceived w ∈ effs) :
    (params.getIdx (index + 2) (.str "") = .str (String.mk ('0' :: 'x' :: D)) → w.boundary = v) ∧
    (params.getIdx (index + 2) (.str "") = .str (String.mk D) →
      w.boundary = v % 16 ^ (D.length - 2)) := by
  obtain ⟨t, t', ht, ht', hb, -⟩ := Session.notifyStratum_target_job toEpoch h hw
  refine ⟨fun hp => ?_, fun hp => ?_⟩ <;> rw [hp] at ht <;> cases ht
  · rw [coinmineFix_prefixed hlen] at ht'
    cases ht'
    rw [h256_padded hD hv (by omega)] at hb
    exact (Except.ok.inj hb).symm
  · by_cases h2 : 2 ≤ D.length
    · rw [coinmineFix_unprefixed h2 hlen] at ht'
      cases ht'
      rw [h256_padded (fun ch hch => hD ch (List.mem_of_mem_drop hch)) (hexValue?_drop hv 2)
        (by simp; omega)] at hb
      exact (Except.ok.inj hb).symm
    · rw [coinmineFix, if_pos (by simp; omega), if_pos (by simp; omega)] at ht'
      cases ht'

/-- A stratum notification whose share target is `ffff` without `0x`: the boundary is `0xff`. -/
theorem notify_share_target_padding_ffff :
    ∃ (s' : Session) (effs : List Effect) (w : WorkPackage),
      Session.notifyStratum (fun _ => .ok 0)
        ⟨true, true, false, false, false, 1, 0, 0, WorkPackage.empty, "", false, true⟩
        (.arr [.str "00",
          .str "0000000000000000000000000000000000000000000000000000000000000001",
          .str "00", .str "ffff", .int 1]) 1 "00" = .ok (s', effs) ∧
      Effect.workReceived w ∈ effs ∧ w.boundary = 0xffff % 16 ^ 2 := by
  have h := notify_share_target_padding (fun _ => .ok 0)
    ⟨true, true, false, false, false, 1, 0, 0, WorkPackage.empty, "", false, true⟩
    (.arr [.str "00", .str "0000000000000000000000000000000000000000000000000000000000000001",
      .str "00", .str "ffff", .int 1]) 1 "00" "ffff".data 0xffff (by decide) (by decide) rfl
  exact ⟨_, _, _, rfl, List.mem_singleton_self _, (h _ _ _ rfl (List.mem_singleton_self _)).2 rfl⟩

end ProgPowMiner.Stratum
