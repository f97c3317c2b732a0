import Tomato64.Quota.Firewall

/-!
# Usage files of rules that still exist

A restart removes the usage files whose id is not in the id file.  That file
has the ids of the rules that were generated.  A record that is switched off,
or that has lost a cap, keeps its id in `quota_rules` without a rule.
-/

namespace Tomato64.QuotaRules

open List Run Stdio Text

def occurs (id rules : Bytes) : Bool :=
  (rules.splitOn 62).any fun part =>
    (readFields part).any fun record => record.ruleid = id

/-! ## Ids in the file are live -/

section
variable {env : Env} {rule : QuotaRule} {kind : Kind}

end

/-! ## A restart -/

variable (restart : Restart) (system : System)

/-- Every usage file whose id occurs in the records belongs to a cap that is
generated.  Without a WAN nothing is generated, and the id file must have the
id from before. -/
def Restart.Keeps : Prop :=
  givesUp restart = false → restart.env.getInt "quota_enable" ≠ 0 →
  ∀ name, name ∈ system.files (quotaBackupDir restart.env) ∨
      name ∈ restart.saved →
    ∀ id, usageId name = some id →
      occurs id (restart.env.nvram (bytes "quota_rules")) = true →
      if restart.anyWanUp then
        builds restart.env = true → restart.env.idsOpens = true →
          ∃ rule ∈ restart.env.rules, rule.named = true ∧
            rule.record.ruleid = id ∧
              ∃ kind ∈ rule.kinds, name = counterId rule kind
      else ∀ file, system.idFile = some file → quotaIdIsLive file name = true

def Event.Keeps : Event → Prop
  | .restart input => input.Keeps system
  | .changeFiles _ => True

end Tomato64.QuotaRules
