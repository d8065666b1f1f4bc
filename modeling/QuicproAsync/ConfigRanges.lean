import QuicproAsync.ConfigUpdates

/-!
# The ranges of the numeric settings

A number that comes from `php.ini` has passed the handler of its directive, and one that comes from
user code has passed a validator. For most numeric settings of `quic_transport` and
`cluster_and_process` the two let the same numbers through; for six they do not, and whichever is
the stricter one does not guard the setting.
-/

namespace QuicproAsync.Configuration

open Php ValidatedSettings

/-! ### Ranges -/

/-- The value is one that the handler of the directive lets through. -/
def InIniRange (host : IniHost) (setting : Setting) (value : setting.kind.Value) : Prop :=
  ∃ newValue, setting.directive.handler.run host newValue = .ok value

/-- The value is one that the validator for user code lets through. -/
def InUserlandRange (host : IniHost) (setting : Setting) (value : setting.kind.Value) : Prop :=
  ∃ branch ∈ setting.userland, ∃ input, branch.validator.run host input = .ok value

variable {host : IniHost}

/-- Every directive accepts its own default, and gives what the setting is loaded with. -/
theorem directive_default (setting : Setting) :
    setting.directive.handler.run host (ascii setting.directive.default) =
      .ok setting.default := by
  have hone := congrArg (Except.ok (ε := Bytes)) host.zendIniParseBool_one
  have hzero := congrArg (Except.ok (ε := Bytes)) host.zendIniParseBool_zero
  rcases setting with setting | setting | setting | setting <;> cases setting <;> first
    | exact hone
    | exact hzero
    | rfl
    | exact IniHandler.run_decimal (by decide) (by decide)

/-! ### What is kept in every state -/

/-- Whatever is stored has passed one of the two checks. -/
theorem in_some_range {updates : List Update} {state : State}
    (hafter : Machine.after (step host) .defaults updates = some state) (setting : Setting) :
    InIniRange host setting (state.config setting) ∨
      InUserlandRange host setting (state.config setting) := by
  refine Machine.invariant
    (P := fun _ state => InIniRange host setting (state.config setting) ∨
      InUserlandRange host setting (state.config setting))
    (Or.inl ⟨_, directive_default setting⟩) ?_ hafter
  intro _ state update next _ ih hstep
  cases update with
  | ini name newValue =>
    cases hstep
    rw [iniUpdate]
    split
    · exact ih
    · exact ih
    · next assignment hchecked =>
        refine write_invariant (ν := fun setting : Setting => setting.kind.Value)
          (P := fun value => InIniRange host setting value ∨ InUserlandRange host setting value)
          ih ?_
        rintro value rfl
        exact Or.inl ⟨newValue, (checkDirective_ok hchecked).2⟩
  | userland module array =>
    cases hstep
    rw [apply_fst]
    refine writeAll_invariant (ν := fun setting : Setting => setting.kind.Value)
      (P := fun value => InIniRange host setting value ∨ InUserlandRange host setting value)
      ih ?_
    intro value hvalue
    obtain ⟨-, -, branch, hbranch, input, hrun⟩ := of_mem_writes hvalue
    exact Or.inr ⟨branch, hbranch, input, hrun⟩

/-! ### The settings that are guarded -/

/-- A numeric setting of one of the two modules. -/
def Setting.IsNumeric (setting : Setting) : Prop :=
  setting.kind = .long ∧ (setting ∈ Module.quicTransport.settings ∨
    setting ∈ Module.clusterAndProcess.settings)

instance (setting : Setting) : Decidable setting.IsNumeric :=
  inferInstanceAs (Decidable (_ ∧ (_ ∨ _)))

/-- **Both paths guard the same domain** for this setting: in every state that is reached from the
    defaults its value lies in the range of either check. -/
def Guarded (host : IniHost) (setting : Setting) : Prop :=
  ∀ updates state, Machine.after (step host) .defaults updates = some state →
    InIniRange host setting (state.config setting) ∧
      InUserlandRange host setting (state.config setting)

/-- The settings for which one check is looser than the other. -/
def unguarded : List Setting :=
  [.quic .ackDelayExponent, .cluster .clusterGracefulShutdownMs, .cluster .serverMaxFdPerWorker,
    .cluster .clusterMaxRestartsPerWorker, .cluster .clusterRestartIntervalSec,
    .cluster .clusterWorkerNiceness]

theorem userland_range_iff (host : IniHost) {branch : UserlandKey .long} {n : BitVec 64} :
    (∃ other ∈ some branch, ∃ input, other.validator.run host input = .ok n) ↔
      branch.validator.range n.toInt = true := by
  rw [← branch.validator.run_long host]
  simp

theorem same_range {handler : IniHandler .long} {branch : UserlandKey .long}
    (hrange : handler.range = branch.validator.range) (n : BitVec 64) :
    (∃ newValue, handler.run host newValue = .ok n) ↔
      ∃ other ∈ some branch, ∃ input, other.validator.run host input = .ok n := by
  rw [handler.run_long, userland_range_iff, hrange]

variable {setting : Setting}

/-- For the other numeric settings the two checks let the same numbers through. -/
theorem inIniRange_iff (host : IniHost) (hnumeric : setting.IsNumeric)
    (hguarded : setting ∉ unguarded) (value : setting.kind.Value) :
    InIniRange host setting value ↔ InUserlandRange host setting value := by
  rcases setting with setting | setting | setting | setting <;> cases setting <;> first
    | exact absurd hnumeric (by decide)
    | exact absurd (by decide) hguarded
    | exact same_range rfl value

/-! ### The settings that are not -/

/-- The directives of `cluster_and_process` among them are found under their names. -/
theorem settingOf_unguarded : ∀ setting ∈ unguarded.tail,
    settingOf (ascii setting.directive.name) = some setting := by
  decide +kernel

/-- A directive whose handler accepts a text stores what it reads. -/
theorem after_ini {newValue : Bytes} {value : setting.kind.Value}
    (hsetting : settingOf (ascii setting.directive.name) = some setting)
    (hrun : setting.directive.handler.run host newValue = .ok value) :
    ∃ state, Machine.after (step host) .defaults
        [.ini (ascii setting.directive.name) newValue] = some state ∧
      state.config setting = value := by
  refine ⟨_, rfl, ?_⟩
  rw [iniUpdate, checkDirective, hsetting, Option.map_some, hrun]
  exact Function.update_self ..

/-- An entry that the validator accepts is stored, once the administrator permits it. -/
theorem after_userland {module : Module} {entry : Key × Zval} {value : setting.kind.Value}
    (hentry : checkEntry host module entry = some (.ok ⟨setting, value⟩)) :
    ∃ state, Machine.after (step host) .defaults
        [.ini overrideDirective (ascii "1"), .userland module (.array [entry])] = some state ∧
      state.config setting = value := by
  refine ⟨_, rfl, ?_⟩
  have hallowed := (iniUpdate_override host .defaults overrideDirective (ascii "1")).1
  rw [if_pos rfl, host.zendIniParseBool_one] at hallowed
  exact apply_entry hallowed hentry

theorem not_guarded_of_ini {newValue : Bytes} {value : setting.kind.Value}
    (hsetting : settingOf (ascii setting.directive.name) = some setting)
    (hrun : setting.directive.handler.run host newValue = .ok value)
    (hout : ¬ InUserlandRange host setting value) : ¬ Guarded host setting := by
  intro hguarded
  obtain ⟨state, hafter, rfl⟩ := after_ini hsetting hrun
  exact hout (hguarded _ _ hafter).2

theorem not_guarded_of_userland {module : Module} {entry : Key × Zval}
    {value : setting.kind.Value}
    (hentry : checkEntry host module entry = some (.ok ⟨setting, value⟩))
    (hout : ¬ InIniRange host setting value) : ¬ Guarded host setting := by
  intro hguarded
  obtain ⟨state, hafter, rfl⟩ := after_userland hentry
  exact hout (hguarded _ _ hafter).1

theorem checkEntry_exponent : checkEntry host .quicTransport
    (.str (ascii "ack_delay_exponent"), .long 21) =
      some (.ok ⟨.quic .ackDelayExponent, (21 : BitVec 64)⟩) := (rfl)

theorem exponent_not_inIniRange :
    ¬ InIniRange host (.quic .ackDelayExponent) (21 : BitVec 64) := by
  intro hin
  exact absurd ((IniHandler.run_long host .ackDelayExponent 21).mp hin) (by decide)

theorem niceness_not_inUserlandRange :
    ¬ InUserlandRange host (.cluster .clusterWorkerNiceness) (100 : BitVec 64) := by
  intro hin
  exact absurd ((userland_range_iff host).mp hin) (by decide)

/-- **Both paths guard the same domain** for all numeric settings of the two modules but six. -/
theorem guarded_iff (host : IniHost) (setting : Setting) (hnumeric : setting.IsNumeric) :
    Guarded host setting ↔ setting ∉ unguarded := by
  constructor
  · intro hguarded hmem
    have hname := settingOf_unguarded setting
    -- the handlers of `cluster_and_process` let zero through, the validators do not
    have hzero : ∀ {branch : UserlandKey .long}, branch.validator.range 0 = false →
        ¬ ∃ other ∈ some branch, ∃ input, other.validator.run host input = .ok 0#64 := by
      intro branch hrange hin
      have hpositive := (userland_range_iff host).mp hin
      exact Bool.false_ne_true (hrange.symm.trans hpositive)
    simp only [unguarded, List.mem_cons, List.not_mem_nil, or_false] at hmem
    rcases hmem with rfl | rfl | rfl | rfl | rfl | rfl
    · exact not_guarded_of_userland checkEntry_exponent exponent_not_inIniRange hguarded
    · exact not_guarded_of_ini (hname (by decide)) (IniHandler.run_decimal rfl rfl) (hzero rfl)
        hguarded
    · exact not_guarded_of_ini (hname (by decide)) (IniHandler.run_decimal rfl rfl) (hzero rfl)
        hguarded
    · exact not_guarded_of_ini (hname (by decide)) (IniHandler.run_decimal rfl rfl) (hzero rfl)
        hguarded
    · exact not_guarded_of_ini (hname (by decide)) (IniHandler.run_decimal rfl rfl) (hzero rfl)
        hguarded
    · exact not_guarded_of_ini (hname (by decide)) (IniHandler.run_decimal rfl rfl)
        niceness_not_inUserlandRange hguarded
  · intro hguarded updates state hafter
    have hsame := inIniRange_iff host hnumeric hguarded (state.config setting)
    rcases in_some_range hafter setting with hini | huserland
    · exact ⟨hini, hsame.mp hini⟩
    · exact ⟨hsame.mpr huserland, huserland⟩

theorem initial_window_guarded : Guarded decimalHost (.quic .ccInitialCwndPackets) :=
  (guarded_iff decimalHost (.quic .ccInitialCwndPackets) (by decide)).mpr (by decide)

/-- User code may set the exponent to 21, and `php.ini` the niceness of the workers to 100. -/
theorem exponent_and_niceness_unguarded :
    (∃ state, Machine.after (step decimalHost) .defaults
        [.ini overrideDirective (ascii "1"), .userland .quicTransport
          (.array [(.str (ascii "ack_delay_exponent"), .long 21)])] = some state ∧
        state.config (.quic .ackDelayExponent) = (21 : BitVec 64)) ∧
      ¬ Guarded decimalHost (.quic .ackDelayExponent) ∧
      (∃ state, Machine.after (step decimalHost) .defaults
        [.ini (ascii "quicpro.cluster_worker_niceness") (ascii "100")] = some state ∧
        state.config (.cluster .clusterWorkerNiceness) = (100 : BitVec 64)) ∧
      ¬ Guarded decimalHost (.cluster .clusterWorkerNiceness) := by
  have hread : IniHandler.long.run decimalHost (ascii "100") = .ok (100 : BitVec 64) :=
    IniHandler.run_decimal (by decide) rfl
  have hname := settingOf_unguarded (.cluster .clusterWorkerNiceness) (by decide)
  have hexponent := after_userland (@checkEntry_exponent decimalHost)
  have hniceness := after_ini hname hread
  refine ⟨hexponent, ?_, hniceness, ?_⟩
  · exact not_guarded_of_userland checkEntry_exponent exponent_not_inIniRange
  · exact not_guarded_of_ini hname hread niceness_not_inUserlandRange

end QuicproAsync.Configuration
