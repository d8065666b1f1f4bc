import QuicproAsync.Configuration

/-!
# Updates that fail and updates that are locked out

The functions for user code write each value as soon as it has been checked. If a later entry of
the array is refused, the call returns `FAILURE` and the values before it stay written.

The flag that permits these calls is another matter: no branch of the functions writes it or the
flag of the admin API, and while it is false they return before they look at the array.
-/

namespace QuicproAsync.Configuration

open Php ValidatedSettings

/-! ### What an update writes -/

/-- The writes of a call: those of the entries that are accepted before one is refused. -/
def writes (host : IniHost) (module : Module) (state : State) : Zval → List Assignment
  | .array entries =>
    if state.isUserlandOverrideAllowed then writesOf (checkEntry host module) entries else []
  | _ => []

variable {host : IniHost}

theorem applyUserlandConfig_fst (module : Module) (disabled notArray : String) (state : State)
    (array : Zval) :
    (applyUserlandConfig host module disabled notArray state array).1 =
      { state with config := writeAll state.config (writes host module state array) } := by
  obtain ⟨allowed, config⟩ := state
  cases allowed with
  | false => cases array <;> rfl
  | true =>
    cases array with
    | array entries =>
      exact congrArg (State.mk true) (applyEntries_fst config entries)
    | _ => rfl

theorem apply_fst (module : Module) (state : State) (array : Zval) :
    (module.apply host state array).1 =
      { state with config := writeAll state.config (writes host module state array) } := by
  cases module <;> exact applyUserlandConfig_fst ..

variable {assignment : Assignment}

theorem checkEntry_ok {module : Module} {entry : Key × Zval}
    (hchecked : checkEntry host module entry = some (.ok assignment)) :
    assignment.1 ∈ module.settings ∧ ∃ branch, assignment.1.userland = some branch ∧
      entry.1 = .str (ascii branch.key) ∧
      branch.validator.run host entry.2 = .ok assignment.2 := by
  obtain ⟨key, value⟩ := entry
  cases key with
  | idx n => exact nomatch hchecked
  | str key =>
    obtain ⟨setting, hsetting, hfound⟩ := List.exists_of_findSome?_eq_some hchecked
    cases huserland : setting.userland with
    | none =>
      rw [branchAt, huserland] at hfound
      exact nomatch hfound
    | some branch =>
      rw [branchAt, huserland] at hfound
      dsimp only at hfound
      split at hfound
      · next hkey =>
          rw [Option.some.injEq] at hfound
          cases hrun : branch.validator.run host value with
          | error message =>
            rw [hrun] at hfound
            exact nomatch hfound
          | ok stored =>
            rw [hrun] at hfound
            cases hfound
            exact ⟨hsetting, branch, huserland, congrArg Key.str hkey, hrun⟩
      · exact nomatch hfound

theorem of_mem_writes {module : Module} {state : State} {array : Zval}
    (hmem : assignment ∈ writes host module state array) :
    state.isUserlandOverrideAllowed = true ∧ assignment.1 ∈ module.settings ∧
      ∃ branch, assignment.1.userland = some branch ∧
        ∃ value, branch.validator.run host value = .ok assignment.2 := by
  unfold writes at hmem
  split at hmem
  · split at hmem
    · next hallowed =>
        obtain ⟨entry, -, hchecked⟩ := exists_of_mem_writesOf hmem
        obtain ⟨hsetting, branch, huserland, -, hrun⟩ := checkEntry_ok hchecked
        exact ⟨hallowed, hsetting, branch, huserland, entry.2, hrun⟩
    · cases hmem
  · cases hmem

/-- One entry that is accepted, while calls are permitted. -/
theorem apply_entry {module : Module} {state : State} {entry : Key × Zval} {setting : Setting}
    {value : setting.kind.Value} (hallowed : state.isUserlandOverrideAllowed = true)
    (hentry : checkEntry host module entry = some (.ok ⟨setting, value⟩)) :
    (module.apply host state (.array [entry])).1.config setting = value := by
  rw [apply_fst, writes, if_pos hallowed, writesOf, hentry]
  exact Function.update_self ..

/-- The keys of an array are distinct, so no setting is written twice. -/
theorem nodup_writes (module : Module) (state : State) (array : PhpArray) :
    ((writes host module state (.array array.entries)).map Sigma.fst).Nodup := by
  rw [writes]
  split
  · apply nodup_writesOf Prod.fst array.nodup
    intro first second setting left right hfirst hsecond
    obtain ⟨-, branch, hbranch, hkey, -⟩ := checkEntry_ok hfirst
    obtain ⟨-, other, hother, hkey', -⟩ := checkEntry_ok hsecond
    have hsame : branch = other := Option.some.inj (hbranch.symm.trans hother)
    rw [hkey, hkey', hsame]
  · exact List.nodup_nil

/-! ### Updates that fail -/

/-- **A failed update changes nothing**: if the call returns `FAILURE`, every setting of the module
    has the value from before. -/
def FailsCleanly (host : IniHost) (module : Module) (state : State) (array : Zval) : Prop :=
  (module.apply host state array).2.isSome → ∀ setting ∈ module.settings,
    (module.apply host state array).1.config setting = state.config setting

/-- **A failed update changes nothing** if and only if each entry that is accepted before the
    refused one sets the value that is there already: for each module, every configuration and
    every array. -/
theorem fails_cleanly_iff (host : IniHost) (module : Module) (state : State) (array : PhpArray) :
    FailsCleanly host module state (.array array.entries) ↔
      ((module.apply host state (.array array.entries)).2.isSome →
        ∀ assignment ∈ writes host module state (.array array.entries),
          state.config assignment.1 = assignment.2) := by
  refine imp_congr_right fun _ => ?_
  rw [apply_fst, ← writeAll_eq_self_iff (nodup_writes module state array)]
  constructor
  · intro hsame
    funext setting
    by_cases hsetting : setting ∈ module.settings
    · exact hsame setting hsetting
    · -- no setting of another module is written
      apply writeAll_of_not_mem
      intro hmem
      obtain ⟨assignment, hassignment, rfl⟩ := List.mem_map.mp hmem
      exact hsetting (of_mem_writes hassignment).2.1
  · intro hsame setting _
    exact congrFun hsame setting

/-- The peer is not to be verified, and the chain may have no certificate. -/
def halfRefused : PhpArray where
  entries := [(.str (ascii "tls_verify_peer"), .bool false),
    (.str (ascii "tls_verify_depth"), .long 0)]
  nodup := by decide
  canonical := by decide

/-- The second entry is refused, and the first has switched the verification off. -/
theorem half_refused_written :
    (Module.tlsAndCrypto.apply decimalHost ⟨true, Setting.default⟩
      (.array halfRefused.entries)).2 =
        some (ascii "Invalid value provided. A positive integer greater than zero is required.") ∧
      ¬ FailsCleanly decimalHost .tlsAndCrypto ⟨true, Setting.default⟩
        (.array halfRefused.entries) := by
  have hmessage : (Module.tlsAndCrypto.apply decimalHost ⟨true, Setting.default⟩
      (.array halfRefused.entries)).2 = some (ascii
        "Invalid value provided. A positive integer greater than zero is required.") := by
    decide +kernel
  refine ⟨hmessage, fun hclean => ?_⟩
  have hpeer : false = true := hclean (hmessage ▸ rfl) (.tls .tlsVerifyPeer) (by decide)
  exact Bool.false_ne_true hpeer

/-! ### The administrator's lock -/

theorem checkDirective_ok {name newValue : Bytes}
    (hchecked : checkDirective host name newValue = some (.ok assignment)) :
    name = ascii assignment.1.directive.name ∧
      assignment.1.directive.handler.run host newValue = .ok assignment.2 := by
  rw [checkDirective, Option.map_eq_some_iff] at hchecked
  obtain ⟨setting, hsetting, hfound⟩ := hchecked
  have hname : name = ascii setting.directive.name := by
    simpa using List.find?_some hsetting
  cases hrun : setting.directive.handler.run host newValue with
  | error message =>
    rw [hrun] at hfound
    exact nomatch hfound
  | ok stored =>
    rw [hrun] at hfound
    cases hfound
    exact ⟨hname, hrun⟩

def overrideDirective : Bytes := ascii "quicpro.security_allow_config_override"

theorem settingOf_override : settingOf overrideDirective = some .override := by decide +kernel

theorem checkDirective_override (newValue : Bytes) :
    checkDirective host overrideDirective newValue =
      some (.ok ⟨.override, host.zendIniParseBool newValue⟩) := by
  rw [checkDirective, settingOf_override]
  rfl

theorem overrideFlag_of_ne {flag : Bool} (hother : assignment.1 ≠ .override) :
    overrideFlag flag assignment = flag := by
  obtain ⟨setting, value⟩ := assignment
  cases setting with
  | security setting =>
    cases setting with
    | allowConfigOverride => exact absurd rfl hother
    | _ => rfl
  | _ => rfl

/-- What an update of a directive does to the flag and its copy. -/
theorem iniUpdate_override (host : IniHost) (state : State) (name newValue : Bytes) :
    (iniUpdate host state name newValue).1.isUserlandOverrideAllowed =
        (if name = overrideDirective then host.zendIniParseBool newValue
          else state.isUserlandOverrideAllowed) ∧
      (iniUpdate host state name newValue).1.config .override =
        (if name = overrideDirective then host.zendIniParseBool newValue
          else state.config .override) := by
  by_cases hname : name = overrideDirective
  · subst hname
    rw [iniUpdate, checkDirective_override, if_pos rfl, if_pos rfl]
    exact ⟨rfl, rfl⟩
  · rw [if_neg hname, if_neg hname, iniUpdate]
    cases hchecked : checkDirective host name newValue with
    | none => exact ⟨rfl, rfl⟩
    | some result =>
      cases result with
      | error message => exact ⟨rfl, rfl⟩
      | ok assignment =>
        have hother : assignment.1 ≠ .override := by
          intro hsame
          have hdirective := (checkDirective_ok hchecked).1
          rw [hsame] at hdirective
          exact hname hdirective
        exact ⟨overrideFlag_of_ne hother, Function.update_of_ne hother.symm ..⟩

/-- A setting that user code has no key for keeps its value. -/
theorem apply_config_of_userland_none {setting : Setting} (hnone : setting.userland = none)
    (module : Module) (state : State) (array : Zval) :
    (module.apply host state array).1.config setting = state.config setting := by
  rw [apply_fst]
  apply writeAll_of_not_mem
  intro hmem
  obtain ⟨assignment, hassignment, rfl⟩ := List.mem_map.mp hmem
  obtain ⟨-, -, branch, hbranch, -⟩ := of_mem_writes hassignment
  exact nomatch hnone.symm.trans hbranch

/-- What the last update of the directive for the flag has set it to. -/
def lastOverride (host : IniHost) (updates : List Update) : Option Bool :=
  (updates.filterMap fun update =>
    match update with
    | .ini name newValue =>
      if name = overrideDirective then some (host.zendIniParseBool newValue) else none
    | .userland _ _ => none).getLast?

/-- The flag and its copy are what the directive has been set to last. -/
theorem override_after {start state : State} {updates : List Update}
    (hflag : start.isUserlandOverrideAllowed = false) (hcopy : start.config .override = false)
    (hafter : Machine.after (step host) start updates = some state) :
    state.isUserlandOverrideAllowed = (lastOverride host updates).getD false ∧
      state.config .override = (lastOverride host updates).getD false := by
  refine Machine.invariant
    (P := fun updates state =>
      state.isUserlandOverrideAllowed = (lastOverride host updates).getD false ∧
        state.config .override = (lastOverride host updates).getD false)
    ⟨hflag, hcopy⟩ ?_ hafter
  intro updates state update next _ ih hstep
  unfold lastOverride at ih ⊢
  rw [List.filterMap_append, List.getLast?_append]
  cases update with
  | ini name newValue =>
    cases hstep
    obtain ⟨hnext, hnextCopy⟩ := iniUpdate_override host state name newValue
    rw [hnext, hnextCopy, ih.1, ih.2]
    by_cases hname : name = overrideDirective
    · simp [hname]
    · simp [hname]
  | userland module array =>
    cases hstep
    rw [apply_config_of_userland_none rfl, apply_fst]
    simpa using ih

/-- **The administrator's lock holds**, after every sequence of updates from a state in which the
    flag and its copy are false. The two are equal. No call from user code changes them or the flag
    of the admin API, and one that changes some setting comes after the directive was last set to
    true. -/
theorem administrator_lock_holds (host : IniHost) (start state : State) (updates : List Update)
    (hflag : start.isUserlandOverrideAllowed = false) (hcopy : start.config .override = false)
    (hafter : Machine.after (step host) start updates = some state) :
    state.isUserlandOverrideAllowed = state.config .override ∧
      ∀ module array next, step host state (.userland module array) = some next →
        next.isUserlandOverrideAllowed = state.isUserlandOverrideAllowed ∧
        next.config .override = state.config .override ∧
        next.config .adminApi = state.config .adminApi ∧
        (next.config ≠ state.config → lastOverride host updates = some true) := by
  obtain ⟨hallowed, hstored⟩ := override_after hflag hcopy hafter
  refine ⟨hallowed.trans hstored.symm, ?_⟩
  intro module array next hstep
  cases hstep
  refine ⟨by rw [apply_fst], apply_config_of_userland_none rfl module state array,
    apply_config_of_userland_none rfl module state array, fun hchanged => ?_⟩
  -- a call that changes something has written something, so it was permitted
  have hwritten : writes host module state array ≠ [] := by
    intro hnil
    rw [apply_fst, hnil] at hchanged
    exact hchanged rfl
  obtain ⟨assignment, hassignment⟩ := List.exists_mem_of_ne_nil _ hwritten
  have hpermitted := (of_mem_writes hassignment).1
  rw [hallowed] at hpermitted
  cases hlast : lastOverride host updates with
  | none =>
    rw [hlast] at hpermitted
    exact nomatch hpermitted
  | some last =>
    rw [hlast] at hpermitted
    exact congrArg some hpermitted

/-- The administrator permits it, and a call raises the limit of the rate limiter. -/
theorem administrator_permits : ∃ state next,
    Machine.after (step decimalHost) .defaults [.ini overrideDirective (ascii "1")] =
        some state ∧
      step decimalHost state (.userland .securityAndTraffic
        (.array [(.str (ascii "security_rate_limiter_burst"), .long 500)])) = some next ∧
      next.config (.security .rateLimiterBurst) = (500 : BitVec 64) ∧
      next.config .adminApi = state.config .adminApi ∧
      lastOverride decimalHost [.ini overrideDirective (ascii "1")] = some true := by
  obtain ⟨state, hafter⟩ : ∃ state, Machine.after (step decimalHost) .defaults
      [.ini overrideDirective (ascii "1")] = some state := ⟨_, rfl⟩
  obtain ⟨next, hstep⟩ : ∃ next, step decimalHost state (.userland .securityAndTraffic
      (.array [(.str (ascii "security_rate_limiter_burst"), .long 500)])) = some next := ⟨_, rfl⟩
  have hlast : lastOverride decimalHost [.ini overrideDirective (ascii "1")] = some true := by
    decide
  have hallowed := (override_after rfl rfl hafter).1
  rw [hlast] at hallowed
  have hadmin := ((administrator_lock_holds decimalHost .defaults state
    [.ini overrideDirective (ascii "1")] rfl rfl hafter).2 _ _ next hstep).2.2.1
  refine ⟨state, next, hafter, hstep, ?_, hadmin, hlast⟩
  cases hstep
  exact apply_entry hallowed rfl

end QuicproAsync.Configuration
