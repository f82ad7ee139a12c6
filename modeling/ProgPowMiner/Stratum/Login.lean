import ProgPowMiner.Stratum.Link

/-!
# The login request of `connect_handler`

On a new connection `connect_handler` appends one line: `mining.subscribe` in the stratum
dialects, `eth_submitLogin` in the ethproxy one. For ethproxy it cuts the user at its first `.`:
`user = substr(0, p)` is the login name, and `m_worker = substr(p + 1)` when
`p + 1 <= length()`, else the empty string. `p` is a `size_t`; without a `.` it is `npos`, and
`npos + 1` wraps to `0`, so the test holds and `m_worker` is the whole user.

* `ethproxyLogin` is that computation as the code writes it, `npos` as `none`.
* `workerOf_eq_ethproxyLogin`: the worker `Session.connectHandler` stores is the same one, for
  every user.
* `ethproxy_login_split`: with a `.`, the login name is what comes before the first one and
  `m_worker` what comes after; without, both are the whole user.
-/

namespace ProgPowMiner.Stratum

theorem findFirstOf_none {u : List Char} (h : '.' ∉ u) : findFirstOf u '.' = none :=
  List.findIdx?_eq_none_iff.2 fun _ hc => beq_eq_false_iff_ne.2 fun e => h (e ▸ hc)

theorem findFirstOf_split {pre post : List Char} (h : '.' ∉ pre) :
    findFirstOf (pre ++ '.' :: post) '.' = some pre.length := by
  have hpre : pre.findIdx? (· == '.') = none := findFirstOf_none h
  simp [findFirstOf, List.findIdx?_append, hpre]

theorem ethproxyLogin_split {pre post : List Char} (h : '.' ∉ pre) :
    ethproxyLogin (pre ++ '.' :: post) = (pre, post) := by
  simp [ethproxyLogin, findFirstOf_split h, substrTo, sizeSucc]

theorem ethproxyLogin_no_dot {u : List Char} (h : '.' ∉ u) : ethproxyLogin u = (u, u) := by
  simp [ethproxyLogin, findFirstOf_none h, substrTo, sizeSucc]

theorem exists_first_dot {u : List Char} (h : '.' ∈ u) :
    ∃ pre post, u = pre ++ '.' :: post ∧ '.' ∉ pre := by
  induction u with
  | nil => exact absurd h (List.not_mem_nil _)
  | cons c u ih =>
    by_cases hc : c = '.'
    · exact ⟨[], u, by rw [hc]; rfl, List.not_mem_nil _⟩
    · obtain ⟨pre, post, rfl, hpre⟩ := ih ((List.mem_cons.1 h).resolve_left (Ne.symm hc))
      exact ⟨c :: pre, post, rfl, by simp [hpre, Ne.symm hc]⟩

theorem workerOf_split {pre post : List Char} (h : '.' ∉ pre) :
    workerOf (pre ++ '.' :: post) = post := by
  have hp : ∀ c ∈ pre, decide (c ≠ '.') = true := fun c hc => decide_eq_true fun e => h (e ▸ hc)
  rw [workerOf, if_pos (List.mem_append_right _ (List.mem_cons_self _ _)),
    List.dropWhile_append_of_pos hp]
  simp

/-- The session's `m_worker` and the one the login line carries are the same, for every user. -/
theorem workerOf_eq_ethproxyLogin (u : List Char) : workerOf u = (ethproxyLogin u).2 := by
  by_cases h : '.' ∈ u
  · obtain ⟨pre, post, rfl, hpre⟩ := exists_first_dot h
    rw [workerOf_split hpre, ethproxyLogin_split hpre]
  · rw [ethproxyLogin_no_dot h, workerOf, if_neg h]

theorem connect_ethproxy (conn : Connection) (email version : String) (s : Session)
    (hv : conn.version = .ethproxy) :
    connectLine conn email version =
        ethproxyLoginLine (String.mk (ethproxyLogin conn.user.data).2)
          (String.mk (ethproxyLogin conn.user.data).1) email ∧
      (s.connectHandler conn).worker = String.mk (ethproxyLogin conn.user.data).2 := by
  simp only [connectLine, Session.connectHandler, hv, workerOf_eq_ethproxyLogin, and_self]

/-- **The ethproxy login.** On an ethproxy connection with user `u`: when `u` has a `.`, the
login name sent is the part before the first `.` and `m_worker` the part after it; when `u` has
none, the login name and `m_worker` are both `u`. -/
theorem ethproxy_login_split (conn : Connection) (email version : String) (s : Session)
    (hv : conn.version = .ethproxy) :
    (∀ pre post : List Char, conn.user.data = pre ++ '.' :: post → '.' ∉ pre →
      connectLine conn email version = ethproxyLoginLine (String.mk post) (String.mk pre) email ∧
        (s.connectHandler conn).worker = String.mk post) ∧
    ('.' ∉ conn.user.data →
      connectLine conn email version = ethproxyLoginLine conn.user conn.user email ∧
        (s.connectHandler conn).worker = conn.user) := by
  obtain ⟨hl, hw⟩ := connect_ethproxy conn email version s hv
  refine ⟨fun pre post hu h => ?_, fun h => ?_⟩
  · rw [hl, hw, hu, ethproxyLogin_split h]
    exact ⟨rfl, rfl⟩
  · rw [hl, hw, ethproxyLogin_no_dot h]
    exact ⟨rfl, rfl⟩

/-- The users `wallet.rig1` and `wallet`: the second logs in as worker `wallet`. -/
theorem ethproxy_login_split_wallet :
    (⟨.ethproxy, "wallet.rig1", "x"⟩ : Connection).version = .ethproxy ∧
    "wallet.rig1".data = "wallet".data ++ '.' :: "rig1".data ∧ '.' ∉ "wallet".data ∧
    (connectLine ⟨.ethproxy, "wallet.rig1", "x"⟩ "" "0.14" =
        ethproxyLoginLine (String.mk "rig1".data) (String.mk "wallet".data) "" ∧
      (Session.connectHandler ⟨.ethproxy, "wallet.rig1", "x"⟩
        ⟨false, false, true, false, false, 1, 0, 0, WorkPackage.empty, "", false, false⟩).worker =
          String.mk "rig1".data) ∧
    (⟨.ethproxy, "wallet", "x"⟩ : Connection).version = .ethproxy ∧
    '.' ∉ "wallet".data ∧
    (connectLine ⟨.ethproxy, "wallet", "x"⟩ "" "0.14" = ethproxyLoginLine "wallet" "wallet" "" ∧
      (Session.connectHandler ⟨.ethproxy, "wallet", "x"⟩
        ⟨false, false, true, false, false, 1, 0, 0, WorkPackage.empty, "", false, false⟩).worker =
          "wallet") :=
  ⟨rfl, rfl, by decide,
    (ethproxy_login_split ⟨.ethproxy, "wallet.rig1", "x"⟩ "" "0.14"
      ⟨false, false, true, false, false, 1, 0, 0, WorkPackage.empty, "", false, false⟩ rfl).1
      "wallet".data "rig1".data rfl (by decide),
    rfl, by decide,
    (ethproxy_login_split ⟨.ethproxy, "wallet", "x"⟩ "" "0.14"
      ⟨false, false, true, false, false, 1, 0, 0, WorkPackage.empty, "", false, false⟩ rfl).2
      (by decide)⟩

end ProgPowMiner.Stratum
