import NestedRead.Config.Validation

/-!
# Settings that passed validation

What the compiler relies on when settings are valid: the separator and the alias of the root pass
their own rules. The two limits have no part in the format of rows.
-/

set_option autoImplicit false

namespace NestedRead.Config

theorem settingFaults_of_isValid {config : Config} (h : config.isValid = true) :
    config.settingFaults = [] := by
  unfold isValid faults at h
  cases hfaults : config.settingFaults with
  | nil => rfl
  | cons fault rest => rw [hfaults] at h; cases h

theorem eq_true_of_faultUnless {valid : Bool} {fault : ConfigFault}
    (h : faultUnless valid fault = []) : valid = true := by
  cases valid with
  | true => rfl
  | false => cases h

theorem isSeparator_of_isValid {config : Config} (h : config.isValid = true) :
    isSeparator config.aliasSeparator = true := by
  have hnone := settingFaults_of_isValid h
  simp only [settingFaults, List.append_eq_nil_iff] at hnone
  exact eq_true_of_faultUnless hnone.1.1.1

theorem isPlain_baseAlias_of_isValid {config : Config} (h : config.isValid = true) :
    Identifier.isPlain config.baseAlias = true := by
  have hnone := settingFaults_of_isValid h
  simp only [settingFaults, List.append_eq_nil_iff] at hnone
  exact eq_true_of_faultUnless hnone.1.1.2

end NestedRead.Config
