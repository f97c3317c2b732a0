import Tomato64.Quota.Firewall

/-!
# Ids are released before they are asked for

The flush at the start of a restart frees the ids of the live rules, as long
as there is an id file.  It is not repeated between the calls of
`iptables-restore`, so a call that commits the mangle table and fails behind it
leaves its ids to the next call.
-/

namespace Tomato64.QuotaRules

open List Run Text

/-- No call that commits the mangle table is followed by another. -/
def noLateRetry : List Outcome → Bool
  | [] => true
  | [_] => true
  | outcome :: outcomes =>
    outcome = .success || (outcome ≠ .late && noLateRetry outcomes)

theorem noLateRetry_cons {outcome : Outcome} {outcomes : List Outcome}
    (hclean : noLateRetry (outcome :: outcomes) = true)
    (houtcome : outcome ≠ .success) :
    outcomes = [] ∨ outcome ≠ .late ∧ noLateRetry outcomes = true := by
  cases outcomes with
  | nil => exact .inl rfl
  | cons next outcomes =>
    simpa [noLateRetry, houtcome] using hclean

theorem heldAfter_nil {ids : List Bytes} {outcome : Outcome}
    (hheld : ids = [] ∨ outcome ≠ .late ∧ outcome ≠ .success) :
    (Attempt.mk ids [] outcome).heldAfter = [] := by
  rcases hheld with rfl | ⟨hlate, hsuccess⟩
  · simp [Attempt.heldAfter]
  · simp [Attempt.heldAfter, Attempt.commits, hlate, hsuccess]

/-- Calls that start without any id held. -/
theorem restore_of_nil {ids : List Bytes} {outcomes : List Outcome}
    (hclean : ids = [] ∨ noLateRetry outcomes = true) :
    (∀ attempt ∈ (restore ids outcomes []).1, attempt.duplicate = false) ∧
      (ids = [] → (restore ids outcomes []).2 = []) := by
  induction outcomes with
  | nil => exact ⟨by simp [restore], fun _ => rfl⟩
  | cons outcome outcomes ih =>
    have hfirst : (Attempt.mk ids [] outcome).duplicate = false := by
      simp [Attempt.duplicate]
    rw [restore]
    split
    · exact ⟨by simpa using hfirst, fun hids => heldAfter_nil (.inl hids)⟩
    next hfails =>
    have houtcome : outcome ≠ .success := by
      rintro rfl
      simp [Attempt.succeeds, hfirst] at hfails
    -- the last call may leave ids behind, any other must not
    have hmore : outcomes = [] ∨
        (Attempt.mk ids [] outcome).heldAfter = [] ∧
          (ids = [] ∨ noLateRetry outcomes = true) := by
      rcases hclean with hids | hclean
      · exact .inr ⟨heldAfter_nil (.inl hids), .inl hids⟩
      · rcases noLateRetry_cons hclean houtcome with hlast | ⟨hlate, hrest⟩
        · exact .inl hlast
        · exact .inr ⟨heldAfter_nil (.inr ⟨hlate, houtcome⟩), .inr hrest⟩
    rcases hmore with rfl | ⟨hheld, hrest⟩
    · exact ⟨by simpa [restore] using hfirst,
        fun hids => heldAfter_nil (.inl hids)⟩
    · rw [hheld]
      obtain ⟨hattempts, hnone⟩ := ih hrest
      exact ⟨forall_mem_cons.2 ⟨hfirst, hattempts⟩, hnone⟩

/-! ## A restart -/

/-- The id file could be written, and no call is retried behind a mangle table
with quota rules. -/
def Restart.Clean (restart : Restart) : Prop :=
  givesUp restart = false → restart.anyWanUp = true →
    builds restart.env = true → restart.env.rules ≠ [] →
    restart.env.idsOpens = true ∧ ∀ family,
      (family = .ipv6 → restart.env.ipv6Enabled = true) →
        noLateRetry ((range restoreAttempts).map
          (restart.outcome family)) = true

/-- No call has asked for an id that was held, and held ids are listed. -/
structure Released (system : System) : Prop where
  attempts : ∀ attempt ∈ system.attempts, attempt.duplicate = false
  listed : system.idFile = none → ∀ family, system.held family = []

section
variable {restart : Restart} {system : System}

theorem familyIds_eq_nil {env : Env}
    (hnone : builds env = true → env.rules = []) (family : Family) :
    familyIds env family = [] := by
  by_cases hbuilds : builds env = true
  · have hsublist := familyIds_sublist env family
    rw [familyIds_of_builds hbuilds, hnone hbuilds] at hsublist
    exact sublist_nil.1 hsublist
  · exact familyIds_of_not_builds hbuilds family

/-- Tables with ids come with an id file. -/
theorem generatedIds_of_generatedFile (hclean : restart.Clean)
    (hgoes : givesUp restart = false) {old : Option Bytes}
    (hfile : generatedFile restart old = none)
    (family : Family) : generatedIds restart family = [] := by
  unfold generatedFile at hfile
  unfold generatedIds
  split at hfile
  · next hwan =>
    rw [if_pos hwan]
    refine familyIds_eq_nil (fun hbuilds => ?_) family
    by_contra hrules
    rw [iptQuotas, if_pos hbuilds, (hclean hgoes hwan hbuilds hrules).1] at hfile
    cases hfile
  · next hwan => rw [if_neg hwan]

variable {family : Family}

theorem clean_outcomes (hclean : restart.Clean)
    (hgoes : givesUp restart = false)
    (hfamily : family = .ipv6 → restart.env.ipv6Enabled = true) :
    generatedIds restart family = [] ∨
      noLateRetry ((range restoreAttempts).map
        (restart.outcome family)) = true := by
  unfold generatedIds
  split
  · next hwan =>
    by_cases hids : builds restart.env = true ∧ restart.env.rules ≠ []
    · exact .inr ((hclean hgoes hwan hids.1 hids.2).2 family hfamily)
    · refine .inl (familyIds_eq_nil (fun hbuilds => ?_) family)
      by_contra hrules
      exact hids ⟨hbuilds, hrules⟩
  · exact .inl rfl

theorem held_quotasPreRestore (hreleased : Released system)
    (hfamily : family = .ipv6 → restart.env.ipv6Enabled = true) :
    (quotasPreRestore restart system).held family = [] := by
  unfold quotasPreRestore
  split
  · next hfile => exact hreleased.listed hfile family
  · refine if_neg ?_
    rintro ⟨hipv6, henabled⟩
    rw [hfamily hipv6] at henabled
    cases henabled

theorem Released.quotasPreRestore (hreleased : Released system) :
    Released (quotasPreRestore restart system) := by
  unfold QuotaRules.quotasPreRestore
  split
  · exact hreleased
  · next hfile => exact ⟨hreleased.attempts, fun hnone => absurd hnone hfile⟩

/-- Handing over the tables of a family that holds no ids. -/
theorem restoreFamily_of_nil (hclean : restart.Clean)
    (hgoes : givesUp restart = false)
    (hfamily : family = .ipv6 → restart.env.ipv6Enabled = true)
    (hheld : system.held family = [])
    (hattempts : ∀ attempt ∈ system.attempts, attempt.duplicate = false) :
    (∀ attempt ∈ (restoreFamily restart family system).attempts,
        attempt.duplicate = false) ∧ (generatedIds restart family = [] →
        (restoreFamily restart family system).held family = []) := by
  have hrestore := restore_of_nil (clean_outcomes hclean hgoes hfamily)
  unfold restoreFamily
  rw [hheld]
  refine ⟨forall_mem_append.2 ⟨hattempts, hrestore.1⟩, fun hids => ?_⟩
  simpa using hrestore.2 hids

theorem restoreFamily_held_other {other : Family} (hother : other ≠ family) :
    (restoreFamily restart family system).held other = system.held other :=
  if_neg hother

theorem startQuotas_frame (restart : Restart) (system : System) :
    (startQuotas restart system).idFile = system.idFile ∧
      (startQuotas restart system).held = system.held ∧
      (startQuotas restart system).attempts = system.attempts := by
  unfold startQuotas
  split
  · exact ⟨rfl, rfl, rfl⟩
  · split
    · exact ⟨rfl, rfl, rfl⟩
    · exact ⟨rfl, rfl, rfl⟩

/-- Handing over the tables of both families. -/
theorem restore_released (hclean : restart.Clean)
    (hgoes : givesUp restart = false)
    (hattempts : ∀ attempt ∈ system.attempts, attempt.duplicate = false)
    (hheld : ∀ family, (family = .ipv6 → restart.env.ipv6Enabled = true) →
      system.held family = [])
    (hids : system.idFile = none → ∀ family, generatedIds restart family = []) :
    Released (restoreIpv6 restart (restoreFamily restart .ipv4 system)) := by
  have hfamily : Family.ipv4 = .ipv6 → restart.env.ipv6Enabled = true := nofun
  obtain ⟨hattempts, hnone⟩ :=
    restoreFamily_of_nil hclean hgoes hfamily (hheld .ipv4 hfamily) hattempts
  unfold restoreIpv6
  split
  · next henabled =>
    have hipv6 : (restoreFamily restart .ipv4 system).held .ipv6 = [] := by
      rw [restoreFamily_held_other (by decide), hheld .ipv6 fun _ => henabled]
    obtain ⟨hboth, hnone'⟩ := restoreFamily_of_nil hclean hgoes
      (fun _ => henabled) hipv6 hattempts
    refine ⟨hboth, fun hfile family => ?_⟩
    cases family with
    | ipv4 =>
      rw [restoreFamily_held_other (by decide), hnone (hids hfile .ipv4)]
    | ipv6 => exact hnone' (hids hfile .ipv6)
  · refine ⟨hattempts, fun hfile family => ?_⟩
    cases family with
    | ipv4 => exact hnone (hids hfile .ipv4)
    | ipv6 => rfl

theorem startFirewall_released (hclean : restart.Clean)
    (hreleased : Released system) :
    Released (startFirewall restart system) := by
  have hflushed : Released (quotasPreRestore restart system) :=
    hreleased.quotasPreRestore
  unfold startFirewall
  split
  · exact hflushed
  next hgives =>
  have hgoes : givesUp restart = false := Bool.eq_false_iff.2 hgives
  have hrestored : Released (restoreIpv6 restart (restoreFamily restart
      .ipv4 (writeTables restart (quotasPreRestore restart system)))) :=
    restore_released hclean hgoes hflushed.attempts
      (fun _ hfamily => held_quotasPreRestore hreleased hfamily)
      (generatedIds_of_generatedFile hclean hgoes)
  obtain ⟨hfile, hheld, hattempts⟩ := startQuotas_frame restart
    (restoreIpv6 restart (restoreFamily restart .ipv4
      (writeTables restart (quotasPreRestore restart system))))
  refine ⟨?_, fun hnone family => ?_⟩
  · rw [hattempts]
    exact hrestored.attempts
  · rw [hheld]
    exact hrestored.listed (hfile ▸ hnone) family

end

/-! ## Runs -/

def Event.Clean : Event → Prop
  | .restart input => input.Clean
  | .changeFiles _ => True

theorem react_released {system : System} {event : Event}
    (hreleased : Released system) (hclean : event.Clean) :
    Released (react system event) := by
  cases event with
  | restart restart => exact startFirewall_released hclean hreleased
  | changeFiles files => exact ⟨hreleased.attempts, hreleased.listed⟩

theorem boot_released (files : Bytes → List Bytes) : Released (.boot files) :=
  ⟨nofun, fun _ _ => rfl⟩

/-- In a run of clean restarts no call of `iptables-restore` asks for an id
that live rules hold. -/
theorem run_released (files : Bytes → List Bytes) (events : List Event)
    (hclean : ∀ event ∈ events, event.Clean) :
    ∀ attempt ∈ (events.foldl react (.boot files)).attempts,
      attempt.duplicate = false :=
  (invariant_of_along (fun _ _ => react_released) (boot_released files)
    (along_of_forall hclean _)).attempts

/-- One download cap for the whole network. -/
def oneCapEnv : Env :=
  .router [(bytes "quota_enable", bytes "1"),
    (bytes "quota_rules", bytes "1<ALL<1000<<<day<<<<0<<0<0<1")]

/-- A restart whose first call ends like this, and whose later ones succeed. -/
def restartAfter (first : Outcome) : Restart where
  env := oneCapEnv
  anyWanUp := true
  opens := fun _ => true
  outcome := fun _ call => if call = 0 then first else .success
  saved := []

/-- Two restarts, the second with a retry. -/
theorem run_released_retry :
    (([Event.restart (restartAfter .success),
        .restart (restartAfter .refused)].foldl react
          (.boot fun _ => [])).attempts.all (!·.duplicate)) = true := by
  simp only [all_eq_true, Bool.not_eq_true']
  refine run_released _ _ fun event hevent => ?_
  have hgood : ∀ first, first ≠ .late →
      Event.Clean (.restart (restartAfter first)) := by
    intro first hfirst _ _ _ _
    refine ⟨rfl, fun family _ => ?_⟩
    cases first <;> simp_all [restartAfter, noLateRetry, restoreAttempts,
      range_succ]
  simp only [mem_cons, not_mem_nil, or_false] at hevent
  rcases hevent with rfl | rfl
  · exact hgood _ (by decide)
  · exact hgood _ (by decide)

/-- The first call commits the mangle table and fails behind it, so the second
asks for the same ids again. -/
theorem run_released_lateRetry_fails :
    ∃ attempt ∈ ([Event.restart (restartAfter .late)].foldl react
        (.boot fun _ => [])).attempts,
      attempt.duplicate = true := by
  have hbuilds : builds oneCapEnv = true := by decide
  have hids : counterIds oneCapEnv.rules = [bytes "quota_1_d"] := by
    decide
  have hgenerated : generatedIds (restartAfter .late) .ipv4 =
      [bytes "quota_1_d"] := (familyIds_of_builds hbuilds).trans hids
  have hattempts : (startFirewall (restartAfter .late)
      (.boot fun _ => [])).attempts =
      (restore (generatedIds (restartAfter .late) .ipv4)
        [.late, .success, .success] []).1 := by
    rw [startFirewall, if_neg (by decide), (startQuotas_frame _ _).2.2]
    rfl
  refine ⟨⟨[bytes "quota_1_d"], [bytes "quota_1_d"], .success⟩, ?_, by decide⟩
  rw [foldl_cons, foldl_nil, react, hattempts, hgenerated]
  decide

end Tomato64.QuotaRules
