import QuicproAsync.ConfigUpdates

/-!
# Updates that succeed

A call from user code that returns `SUCCESS` has refused no entry of the array. Each setting whose
key occurs has the value of its entry, each other setting has the value from before, and the order
of the entries does not matter: the keys of an array are distinct, and so are those of the settings
of a module.
-/

namespace QuicproAsync.Configuration

open Php OrderedMap ValidatedSettings

/-! ### What the array asks for -/

/-- What an array gives for a setting; none if its key does not occur. -/
def asked (setting : Setting) (array : PhpArray) : Option Zval :=
  setting.userland.bind fun branch => array.entries.lookup (.str (ascii branch.key))

/-- A field holds a value from user code. A string is held up to its first NUL. -/
def Holds : {kind : Kind} → kind.Value → Zval → Prop
  | .bool, stored, value => value = .bool stored
  | .long, stored, value => value = .long stored
  | .string, stored, value => ∃ text, value = .string text ∧ stored = pestrdup text

/-- **The update is exact**: the settings whose keys occur hold the values given for them, and
    nothing else has changed. -/
structure Exact (module : Module) (state next : State) (array : PhpArray) : Prop where
  given : ∀ setting ∈ module.settings, ∀ value, asked setting array = some value →
    Holds (next.config setting) value
  kept : ∀ setting ∈ module.settings, asked setting array = none →
    next.config setting = state.config setting
  others : ∀ setting, setting ∉ module.settings → next.config setting = state.config setting
  flag : next.isUserlandOverrideAllowed = state.isUserlandOverrideAllowed

/-! ### What is stored -/

variable {value : Zval}

theorem longValidator_ok {wrongType wrongValue : String} {isAllowed : Int → Bool} {n : BitVec 64}
    (hok : longValidator wrongType wrongValue isAllowed value = .ok n) :
    value = .long n := by
  unfold longValidator at hok
  split at hok
  · split at hok
    · cases hok
      rfl
    · cases hok
  · cases hok

theorem stringValidator_ok {wrongType wrongValue : String} {isAllowed : Bytes → Bool}
    {stored : CString} (hok : stringValidator wrongType wrongValue isAllowed value = .ok stored) :
    ∃ text, value = .string text ∧ stored = pestrdup text := by
  unfold stringValidator at hok
  split at hok
  · split at hok
    · cases hok
      exact ⟨_, rfl, rfl⟩
    · cases hok
  · cases hok

variable {host : IniHost} {module : Module} {setting : Setting} {state next : State}
variable {array : PhpArray}

/-- What a validator stores is what it was given. -/
theorem Validator.holds_of_run {kind : Kind} {validator : Validator kind} {stored : kind.Value}
    (hok : validator.run host value = .ok stored) : Holds stored value := by
  cases validator with
  | bool =>
    cases value with
    | bool given =>
      cases hok
      rfl
    | _ => cases hok
  | positiveLong => exact longValidator_ok hok
  | nonNegativeLong => exact longValidator_ok hok
  | nicenessValue => exact longValidator_ok hok
  | string =>
    rw [run, qpValidateString] at hok
    exact stringValidator_ok hok
  | genericString =>
    rw [run, qpValidateGenericString] at hok
    exact stringValidator_ok hok
  | stringFromAllowlist allowed =>
    rw [run, qpValidateStringFromAllowlist] at hok
    exact stringValidator_ok hok
  | schedulerPolicy =>
    rw [run, qpValidateSchedulerPolicy] at hok
    exact stringValidator_ok hok
  | corsOriginString =>
    cases value with
    | string text =>
      change (if _ then _ else _) = _ at hok
      split at hok
      · cases hok
        exact ⟨text, rfl, rfl⟩
      · cases hok
    | _ => cases hok

/-! ### The branch for a key -/

def Setting.key (setting : Setting) : Option Bytes :=
  setting.userland.map fun branch => ascii branch.key

/-- No two settings of a module have the same key. -/
theorem key_injective (module : Module) :
    ∀ left ∈ module.settings, ∀ right ∈ module.settings, left.key = right.key →
      left.key = none ∨ left = right := by
  cases module <;> decide +kernel

theorem branchAt_of_key (host : IniHost) {branch : UserlandKey setting.kind}
    (hbranch : setting.userland = some branch) (value : Zval) :
    branchAt host (ascii branch.key) value setting =
      some ((branch.validator.run host value).map (Sigma.mk setting)) := by
  rw [branchAt, hbranch]
  exact if_pos rfl

theorem key_of_branchAt {key : Bytes} {result : Except Bytes Assignment}
    (htaken : branchAt host key value setting = some result) : setting.key = some key := by
  rw [Setting.key]
  cases hbranch : setting.userland with
  | none =>
    rw [branchAt, hbranch] at htaken
    cases htaken
  | some branch =>
    rw [branchAt, hbranch] at htaken
    obtain ⟨hkey, -⟩ := Option.ite_none_right_eq_some.mp htaken
    rw [hkey]
    rfl

/-- An entry with the key of a setting gets into the branch for it. -/
theorem checkEntry_key (host : IniHost) {branch : UserlandKey setting.kind}
    (hsetting : setting ∈ module.settings) (hbranch : setting.userland = some branch)
    (value : Zval) :
    checkEntry host module (.str (ascii branch.key), value) =
      some ((branch.validator.run host value).map (Sigma.mk setting)) := by
  have hthis := branchAt_of_key host hbranch value
  change module.settings.findSome? (branchAt host (ascii branch.key) value) = _
  cases hfound : module.settings.findSome? (branchAt host (ascii branch.key) value) with
  | none =>
    rw [List.findSome?_eq_none_iff.mp hfound setting hsetting] at hthis
    cases hthis
  | some result =>
    obtain ⟨other, hother, hresult⟩ := List.exists_of_findSome?_eq_some hfound
    have hkeys : setting.key = other.key :=
      (key_of_branchAt hthis).trans (key_of_branchAt hresult).symm
    rcases key_injective module setting hsetting other hother hkeys with hnone | rfl
    · exact absurd (hnone.symm.trans (key_of_branchAt hthis)) (Option.some_ne_none _).symm
    · exact hresult.symm.trans hthis

/-! ### Calls that return `SUCCESS` -/

theorem apply_array (host : IniHost) (module : Module)
    (hallowed : state.isUserlandOverrideAllowed = true) (entries : HashTable) :
    module.apply host state (.array entries) =
      let result := applyEntries (checkEntry host module) state.config entries
      ({ state with config := result.1 }, result.2) := by
  obtain ⟨allowed, config⟩ := state
  cases hallowed
  cases module <;> rfl

theorem allowed_of_success {array : Zval}
    (hsuccess : module.apply host state array = (next, none)) :
    state.isUserlandOverrideAllowed = true := by
  obtain ⟨allowed, config⟩ := state
  cases allowed with
  | false => cases module <;> cases hsuccess
  | true => rfl

/-- What is asked for is written, if nothing is refused. -/
theorem mem_writesOf_of_asked (hsetting : setting ∈ module.settings)
    (hasked : asked setting array = some value)
    (hfine : ∀ entry ∈ array.entries, ∀ error, checkEntry host module entry ≠ some (.error error)) :
    ∃ stored, ⟨setting, stored⟩ ∈ writesOf (checkEntry host module) array.entries ∧
      Holds stored value := by
  obtain ⟨branch, hbranch, hlookup⟩ := Option.bind_eq_some_iff.mp hasked
  have hentry := mem_of_lookup_eq_some hlookup
  have hchecked := checkEntry_key host hsetting hbranch value
  cases hrun : branch.validator.run host value with
  | error message =>
    rw [hrun] at hchecked
    exact absurd hchecked (hfine _ hentry message)
  | ok stored =>
    rw [hrun] at hchecked
    refine ⟨stored, ?_, Validator.holds_of_run hrun⟩
    rw [writesOf_of_fine hfine]
    exact List.mem_filterMap.mpr ⟨_, hentry, accepted_eq_some hchecked⟩

/-- Only what is asked for is written. -/
theorem asked_of_mem_writesOf {assignment : Assignment}
    (hmem : assignment ∈ writesOf (checkEntry host module) array.entries) :
    assignment.1 ∈ module.settings ∧ (asked assignment.1 array).isSome := by
  obtain ⟨⟨key, value⟩, hentry, hchecked⟩ := exists_of_mem_writesOf hmem
  obtain ⟨hsetting, branch, hbranch, rfl, -⟩ := checkEntry_ok hchecked
  refine ⟨hsetting, ?_⟩
  rw [asked, hbranch, Option.bind_some, lookup_of_mem array.nodup hentry]
  rfl

/-- What is not asked for is kept. -/
theorem applyEntries_of_not_asked (host : IniHost) {config : Config}
    (hnot : setting ∈ module.settings → asked setting array = none) :
    (applyEntries (checkEntry host module) config array.entries).1 setting = config setting := by
  rw [applyEntries_fst]
  apply writeAll_of_not_mem
  intro hwritten
  obtain ⟨assignment, hmem, rfl⟩ := List.mem_map.mp hwritten
  obtain ⟨hsetting, hsome⟩ := asked_of_mem_writesOf hmem
  rw [hnot hsetting] at hsome
  cases hsome

/-- **Updates that succeed are exact**: for each module, every state before and every array for
    which the call returns `SUCCESS`. With the entries in any other order it returns `SUCCESS` too,
    and the state is the same. -/
theorem successful_update_exact (host : IniHost) (module : Module) (state next : State)
    (array : PhpArray) (hsuccess : module.apply host state (.array array.entries) = (next, none)) :
    Exact module state next array ∧ ∀ reordered : PhpArray,
      reordered.entries.Perm array.entries →
        module.apply host state (.array reordered.entries) = (next, none) := by
  have hallowed := allowed_of_success hsuccess
  have hnodup : ((writes host module state (.array array.entries)).map Sigma.fst).Nodup :=
    nodup_writes module state array
  rw [writes, if_pos hallowed] at hnodup
  rw [apply_array host module hallowed] at hsuccess
  obtain ⟨rfl, hnone⟩ := Prod.mk.inj hsuccess
  have hfine := applyEntries_snd.mp hnone
  refine ⟨⟨?_, ?_, ?_, rfl⟩, ?_⟩
  · intro setting hsetting value hasked
    obtain ⟨stored, hmem, hholds⟩ := mem_writesOf_of_asked hsetting hasked hfine
    dsimp only
    rw [applyEntries_fst, writeAll_of_mem hnodup hmem]
    exact hholds
  · intro setting _ hnone
    exact applyEntries_of_not_asked host fun _ => hnone
  · intro setting hother
    exact applyEntries_of_not_asked host fun hsetting => absurd hsetting hother
  · intro reordered hperm
    rw [apply_array host module hallowed, applyEntries_perm hnodup hnone hperm.symm]
    exact hsuccess

/-- A number and a truth value for `quic_transport`. -/
def twoSettings : PhpArray where
  entries := [(.str (ascii "max_ack_delay_ms"), .long 40), (.str (ascii "grease_enable"),
    .bool false)]
  nodup := by decide
  canonical := by decide

theorem two_settings_exact : ∃ next,
    Module.quicTransport.apply decimalHost ⟨true, Setting.default⟩ (.array twoSettings.entries) =
        (next, none) ∧
      Exact .quicTransport ⟨true, Setting.default⟩ next twoSettings ∧
      next.config (.quic .maxAckDelayMs) = (40 : BitVec 64) ∧
      next.config (.quic .pingIntervalMs) = (15000 : BitVec 64) := by
  obtain ⟨next, hsuccess⟩ : ∃ next, Module.quicTransport.apply decimalHost
      ⟨true, Setting.default⟩ (.array twoSettings.entries) = (next, none) := ⟨_, rfl⟩
  obtain ⟨hexact, -⟩ := successful_update_exact decimalHost .quicTransport
    ⟨true, Setting.default⟩ next twoSettings hsuccess
  have hgiven := hexact.given (.quic .maxAckDelayMs) (by decide) (.long 40) rfl
  have hkept := hexact.kept (.quic .pingIntervalMs) (by decide) rfl
  exact ⟨next, hsuccess, hexact, (Zval.long.inj hgiven).symm, hkept⟩

end QuicproAsync.Configuration
