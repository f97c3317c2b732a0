import Tomato64.Shared.Ndpi

/-!
# The migration of the rules

What `ndpi_migrate_rules` leaves behind: the protocol fields of all rules with
the new names in them, and everything else as it was.  Before any of this a gate
looks for the old names, and it looks for them in lower case.
-/

namespace Tomato64.Ndpi

open Fields List Scan Split Text
open Shared Run

variable (protos : Protos)

/-- An old name whose new name can be used, in any case. -/
def IsOld (name : Bytes) : Prop :=
  ∃ entry ∈ ndpiRenamed, Applies protos entry ∧
    equalNoCase name entry.1 = true

/-- The match list of a restriction is there, with a field behind it. -/
def HasMatches (text : Bytes) : Prop :=
  7 ≤ (text.splitOn (ascii '|')).length

instance (text : Bytes) : Decidable (HasMatches text) :=
  inferInstanceAs (Decidable (_ ≤ _))

/-- The protocol fields of a setting: the sixth field of a QoS rule, and the
fourth one in the match list of a restriction. -/
def protocolNames (key text : Bytes) : List Bytes :=
  if key = qosKey then fieldsAt (ascii '>') (ascii '<') 5 text
  else if HasMatches text then
    ((text.splitOn (ascii '|'))[5]?.map
      (fieldsAt (ascii '>') (ascii '<') 3)).getD []
  else []

/-- A setting with its protocol fields changed. -/
def withNames (change : Bytes → Bytes) (key text : Bytes) : Bytes :=
  if key = qosKey then mapField (ascii '>') (ascii '<') 5 change text
  else if HasMatches text then
    mapRecord (ascii '|') 5 (mapField (ascii '>') (ascii '<') 3 change) text
  else text

/-- No protocol field has an old name, the rest of the rules is as before, and
a second run does nothing. -/
structure Migrated (protos : Protos) (before after : Nvram) : Prop where
  complete : ∀ key ∈ ruleKeys, ∀ name ∈ protocolNames key (after key),
    ¬ IsOld protos name
  rules : ∀ key ∈ ruleKeys, ∃ change : Bytes → Bytes,
    (∀ name, ¬ IsOld protos name → change name = name) ∧
      after key = withNames change key (before key)
  others : ∀ key ∉ ruleKeys, after key = before key
  again : ndpiMigrateRules protos after = (after, false)

/-! ## Names -/

theorem isSome_renameName_iff {protos : Protos} {name : Bytes} :
    (renameName protos name).isSome = true ↔ IsOld protos name := by
  constructor
  · intro hsome
    obtain ⟨new, hnew⟩ := Option.isSome_iff_exists.mp hsome
    obtain ⟨entry, hentry, hequal, happlies, -⟩ := renameName_eq_some hnew
    exact ⟨entry, hentry, happlies, hequal⟩
  rintro ⟨entry, hentry, happlies, hequal⟩
  have hshort : ∀ entry ∈ ndpiRenamed, entry.1.length < 64 := by decide
  have hunique : ∀ first ∈ ndpiRenamed, ∀ second ∈ ndpiRenamed,
      first.1.map toLower = second.1.map toLower → first = second := by decide
  have hlength := hshort entry hentry
  rw [← length_eq_of_equalNoCase hequal] at hlength
  rw [renameName, if_pos hlength, ndpiRenameOf]
  cases hfind : ndpiRenamed.find? fun entry => equalNoCase name entry.1 with
  | none =>
    have hnone := find?_eq_none.mp hfind entry hentry
    exact absurd hequal (by simpa using hnone)
  | some found =>
    have hfound : equalNoCase name found.1 = true := by
      simpa using find?_some hfind
    have hsame := hunique found (mem_of_find?_eq_some hfind) entry
      hentry ((of_decide_eq_true hfound).symm.trans (of_decide_eq_true hequal))
    rw [hsame]
    simp [happlies]

theorem newName_eq_self {protos : Protos} {name : Bytes}
    (hname : ¬ IsOld protos name) : newName protos name = name := by
  rw [← isSome_renameName_iff, Bool.not_eq_true, Option.isSome_eq_false_iff,
    Option.isNone_iff_eq_none] at hname
  rw [newName, hname, Option.getD_none]

theorem not_isOld_newName (name : Bytes) :
    ¬ IsOld protos (newName protos name) := by
  by_cases hold : IsOld protos name
  swap
  · rwa [newName_eq_self hold]
  obtain ⟨new, hnew⟩ :=
    Option.isSome_iff_exists.mp (isSome_renameName_iff.mpr hold)
  obtain ⟨entry, hentry, -, -, rfl⟩ := renameName_eq_some hnew
  rw [newName, hnew, Option.getD_some]
  rintro ⟨other, hother, -, hequal⟩
  have hapart : ∀ first ∈ ndpiRenamed, ∀ second ∈ ndpiRenamed,
      equalNoCase first.2 second.1 = false := by decide
  rw [hapart entry hentry other hother] at hequal
  cases hequal

/-- The new names hold no separators. -/
theorem not_mem_newName {protos : Protos} {char : Byte}
    (hchar : char = ascii '<' ∨ char = ascii '>' ∨ char = ascii '|')
    {name : Bytes} (hname : char ∉ name) : char ∉ newName protos name := by
  rw [newName]
  cases hnew : renameName protos name with
  | none => exact hname
  | some new =>
    obtain ⟨entry, hentry, -, -, rfl⟩ := renameName_eq_some hnew
    have hplain : ∀ entry ∈ ndpiRenamed, ascii '<' ∉ entry.2 ∧
        ascii '>' ∉ entry.2 ∧ ascii '|' ∉ entry.2 := by decide
    obtain ⟨hless, hgreater, hbar⟩ := hplain entry hentry
    rcases hchar with rfl | rfl | rfl
    · exact hless
    · exact hgreater
    · exact hbar

theorem newName_keeps : Keeps (ascii '>') (ascii '<') (newName protos) :=
  ⟨fun _ => not_mem_newName (Or.inr (Or.inl rfl)),
    fun _ => not_mem_newName (Or.inl rfl)⟩

/-! ## Settings -/

section
variable (protos : Protos) (key text : Bytes)

theorem bar_not_mem_mapField {field : ℕ} {text : Bytes}
    (htext : ascii '|' ∉ text) :
    ascii '|' ∉ mapField (ascii '>') (ascii '<') field (newName protos) text :=
  not_mem_mapField (by decide) (by decide)
    (fun _ => not_mem_newName (Or.inr (Or.inr rfl))) htext

theorem protocolNames_withNames :
    protocolNames key (withNames (newName protos) key text) =
      (protocolNames key text).map (newName protos) := by
  have hkeeps := newName_keeps protos
  rw [protocolNames, protocolNames, withNames]
  split
  · exact fieldsAt_mapField text (by decide) hkeeps
  by_cases hmatches : HasMatches text
  swap
  · rw [if_neg hmatches, if_neg hmatches, map_nil]
  have hsplit : (mapRecord (ascii '|') 5 (mapField (ascii '>') (ascii '<') 3
      (newName protos)) text).splitOn (ascii '|') =
      (text.splitOn (ascii '|')).modify 5
        (mapField (ascii '>') (ascii '<') 3 (newName protos)) :=
    splitOn_mapRecord text fun _ hlist => bar_not_mem_mapField protos hlist
  have hstill : HasMatches (mapRecord (ascii '|') 5
      (mapField (ascii '>') (ascii '<') 3 (newName protos)) text) := by
    rw [HasMatches, hsplit, length_modify]
    exact hmatches
  rw [if_pos hmatches, if_pos hmatches, if_pos hstill, hsplit,
    getElem?_modify]
  cases (text.splitOn (ascii '|'))[5]? with
  | none => rfl
  | some list => exact fieldsAt_mapField list (by decide) hkeeps

theorem withNames_eq_self {change : Bytes → Bytes}
    (hsame : ∀ name ∈ protocolNames key text, change name = name) :
    withNames change key text = text := by
  rw [protocolNames] at hsame
  rw [withNames]
  split
  · next hkey =>
    rw [if_pos hkey] at hsame
    exact mapField_eq_self hsame
  next hkey =>
  rw [if_neg hkey] at hsame
  split
  · next hmatches =>
    rw [if_pos hmatches] at hsame
    refine mapRecord_eq_self fun list hlist => mapField_eq_self ?_
    rwa [hlist] at hsame
  · rfl

/-- A protocol field has a new name. -/
def hits : Bool :=
  (protocolNames key text).any fun name => (renameName protos name).isSome

/-- What happens to one setting. -/
def migrateKey (nvram : Nvram) : Nvram × Bool :=
  (Function.update nvram key (withNames (newName protos) key (nvram key)),
    hits protos key (nvram key))

theorem withNames_eq_self_of_not_hits (hhits : hits protos key text = false) :
    withNames (newName protos) key text = text := by
  refine withNames_eq_self key text fun name hname => newName_eq_self ?_
  rw [hits, any_eq_false] at hhits
  rw [← isSome_renameName_iff]
  exact hhits name hname

/-- A setting without a hit is left alone. -/
theorem migrateKey_of_not_hits {nvram : Nvram}
    (hhits : hits protos key (nvram key) = false) :
    migrateKey protos key nvram = (nvram, false) := by
  rw [migrateKey, withNames_eq_self_of_not_hits protos key _ hhits,
    Function.update_eq_self, hhits]

theorem ndpiMigrateQos_eq (nvram : Nvram) :
    ndpiMigrateQos protos nvram = migrateKey protos qosKey nvram := by
  have hfits : (nvram qosKey).length < (nvram qosKey).length * 2 + 1 := by omega
  have hnames : ∀ text, protocolNames qosKey text =
      fieldsAt (ascii '>') (ascii '<') 5 text := fun text => if_pos rfl
  rw [ndpiMigrateQos, ndpiRenameField_eq hfits]
  cases hhits : hits protos qosKey (nvram qosKey) with
  | false =>
    rw [migrateKey_of_not_hits protos qosKey hhits]
    rw [hits, hnames] at hhits
    rw [hhits]
    split
    · rfl
    · rfl
  | true =>
    have hne : nvram qosKey ≠ [] := by
      intro hnil
      rw [hnil] at hhits
      cases hhits
    rw [migrateKey, hhits, if_neg hne]
    rw [hits, hnames] at hhits
    rw [hhits]
    rfl

end

/-- What stands before and behind a number of bars. -/
theorem skipBars_eq_some {count : ℕ} {text head rest : Bytes}
    (hskip : skipBars count text = some (head, rest)) (change : Bytes → Bytes) :
    mapRecord (ascii '|') count change text =
        head ++ mapRecord (ascii '|') 0 change rest ∧
      (text.splitOn (ascii '|')).length =
        count + (rest.splitOn (ascii '|')).length ∧
      (text.splitOn (ascii '|'))[count]? = (rest.splitOn (ascii '|'))[0]? := by
  induction count generalizing text head with
  | zero =>
    cases hskip
    exact ⟨rfl, (Nat.zero_add _).symm, rfl⟩
  | succ count ih =>
    rw [skipBars] at hskip
    obtain ⟨⟨front, back⟩, hcut, hskip⟩ := Option.bind_eq_some_iff.mp hskip
    obtain ⟨⟨before, behind⟩, hrest, hsame⟩ := Option.map_eq_some_iff.mp hskip
    cases hsame
    obtain ⟨rfl, hfront⟩ := splitFirst_eq_some_iff.mp hcut
    obtain ⟨hmap, hlength, hget⟩ := ih hrest
    rw [mapRecord_succ hfront, hmap, splitOn_append_cons_self_of_not_mem hfront,
      length_cons, hlength, getElem?_cons_succ]
    refine ⟨?_, by omega, hget⟩
    simp

theorem skipBars_eq_none {count : ℕ} {text : Bytes}
    (hskip : skipBars count text = none) :
    (text.splitOn (ascii '|')).length ≤ count := by
  induction count generalizing text with
  | zero => cases hskip
  | succ count ih =>
    rw [skipBars] at hskip
    cases hcut : splitFirst (ascii '|') text with
    | none =>
      rw [splitOn_eq_singleton (splitFirst_eq_none_iff.mp hcut)]
      exact Nat.succ_le_succ (Nat.zero_le count)
    | some cut =>
      rw [hcut, Option.bind_some, Option.map_eq_none_iff] at hskip
      obtain ⟨rfl, hfront⟩ := splitFirst_eq_some_iff.mp hcut
      rw [splitOn_append_cons_self_of_not_mem hfront, length_cons]
      exact Nat.succ_le_succ (ih hskip)

theorem ndpiMigrateRrule_eq {key : Bytes}
    (hkey : key ≠ qosKey) (nvram : Nvram) :
    ndpiMigrateRrule protos key nvram = migrateKey protos key nvram := by
  have hshort (hlength : ¬ HasMatches (nvram key)) :
      migrateKey protos key nvram = (nvram, false) := by
    refine migrateKey_of_not_hits protos key ?_
    rw [hits, protocolNames, if_neg hkey, if_neg hlength, any_nil]
  rw [ndpiMigrateRrule]
  cases hskip : skipBars 5 (nvram key) with
  | none =>
    refine (hshort fun hlength => ?_).symm
    have hle := skipBars_eq_none hskip
    rw [HasMatches] at hlength
    omega
  | some cut =>
    obtain ⟨head, rest⟩ := cut
    dsimp only
    cases hcut : splitFirst (ascii '|') rest with
    | none =>
      refine (hshort fun hlength => ?_).symm
      obtain ⟨-, hcount, -⟩ := skipBars_eq_some hskip id
      rw [splitOn_eq_singleton (splitFirst_eq_none_iff.mp hcut)] at hcount
      rw [HasMatches, hcount] at hlength
      simp at hlength
    | some cut =>
      obtain ⟨old, tail⟩ := cut
      obtain ⟨rfl, hold⟩ := splitFirst_eq_some_iff.mp hcut
      obtain ⟨hmap, hcount, hget⟩ := skipBars_eq_some hskip
        (mapField (ascii '>') (ascii '<') 3 (newName protos))
      rw [splitOn_append_cons_self_of_not_mem hold, length_cons] at hcount
      rw [splitOn_append_cons_self_of_not_mem hold, getElem?_cons_zero] at hget
      rw [mapRecord_zero hold] at hmap
      have hlong : HasMatches (nvram key) := by
        have htail := length_pos_of_ne_nil
          (splitOn_ne_nil (ascii '|') tail)
        rw [HasMatches]
        omega
      have hnames : protocolNames key (nvram key) =
          fieldsAt (ascii '>') (ascii '<') 3 old := by
        rw [protocolNames, if_neg hkey, if_pos hlong, hget]
        rfl
      have hwith : withNames (newName protos) key (nvram key) = head ++
          mapField (ascii '>') (ascii '<') 3 (newName protos) old ++
            ascii '|' :: tail := by
        rw [withNames, if_neg hkey, if_pos hlong, hmap, append_assoc]
      have hfits : old.length < old.length * 2 + 1 := by omega
      dsimp only
      rw [ndpiRenameField_eq hfits]
      cases hhits : hits protos key (nvram key) with
      | false =>
        rw [migrateKey_of_not_hits protos key hhits]
        rw [hits, hnames] at hhits
        rw [hhits]
        rfl
      | true =>
        rw [migrateKey, hhits, hwith]
        rw [hits, hnames] at hhits
        rw [hhits]
        rfl

/-! ## All settings -/

theorem rruleKey_ne_qosKey (number : ℕ) : rruleKey number ≠ qosKey := by
  intro heq
  have hhead := congrArg List.head? heq
  cases hhead

theorem ruleKeys_nodup : ruleKeys.Nodup := by
  have hinjective : Function.Injective rruleKey := by
    intro first second heq
    exact decimal_injective (append_cancel_left heq)
  rw [ruleKeys, nodup_cons]
  refine ⟨fun hmem => ?_, nodup_range.map hinjective⟩
  obtain ⟨number, -, heq⟩ := mem_map.mp hmem
  exact rruleKey_ne_qosKey number heq

/-- Behind the gate every setting is dealt with once. -/
theorem ndpiMigrateRules_of_gate {nvram : Nvram} (hgate : gate nvram = true) :
    ndpiMigrateRules protos nvram = (fun key => if key ∈ ruleKeys then
          withNames (newName protos) key (nvram key) else nvram key,
        ruleKeys.any fun key => hits protos key (nvram key)) := by
  have hloop := foldl_update (fun key => withNames (newName protos) key)
    (hits protos) ruleKeys_nodup nvram false
  rw [Bool.false_or] at hloop
  refine Eq.trans ?_ (hloop.trans (Prod.ext (funext fun key => ?_) rfl))
  · rw [ndpiMigrateRules, if_pos hgate, ruleKeys, foldl_cons,
      foldl_map, ndpiMigrateQos_eq, Bool.false_or]
    refine congrArg (List.foldl · _ _)
      (funext fun state => funext fun number => ?_)
    rw [ndpiMigrateRrule_eq protos (rruleKey_ne_qosKey number)]
    rfl
  · by_cases hkey : key ∈ ruleKeys
    · dsimp only
      rw [if_pos hkey, if_pos hkey]
    · dsimp only
      rw [if_neg hkey, if_neg hkey]

theorem ndpiMigrateRules_of_not_isOld {protos : Protos} {nvram : Nvram}
    (hnames : ∀ key ∈ ruleKeys, ∀ name ∈ protocolNames key (nvram key),
      ¬ IsOld protos name) :
    ndpiMigrateRules protos nvram = (nvram, false) := by
  cases hgate : gate nvram with
  | false => rw [ndpiMigrateRules, hgate]; rfl
  | true =>
    have hhits : ∀ key ∈ ruleKeys, hits protos key (nvram key) = false := by
      intro key hkey
      rw [hits, any_eq_false]
      intro name hname
      rw [isSome_renameName_iff]
      exact hnames key hkey name hname
    rw [ndpiMigrateRules_of_gate protos hgate]
    refine Prod.ext (funext fun key => ?_) ?_
    · dsimp only
      split
      · next hkey =>
        exact withNames_eq_self_of_not_hits protos key _ (hhits key hkey)
      · rfl
    · rw [any_eq_false]
      intro key hkey
      rw [hhits key hkey]
      exact Bool.false_ne_true

/-- The migration is complete exactly when the gate opens or there was nothing
to do. -/
theorem migrated_iff (protos : Protos) (nvram : Nvram) :
    Migrated protos nvram (ndpiMigrateRules protos nvram).1 ↔
      gate nvram = true ∨
        ∀ key ∈ ruleKeys, ∀ name ∈ protocolNames key (nvram key),
          ¬ IsOld protos name := by
  constructor
  · intro hmigrated
    by_cases hgate : gate nvram = true
    · exact Or.inl hgate
    · have hcomplete := hmigrated.complete
      rw [ndpiMigrateRules, if_neg hgate] at hcomplete
      exact Or.inr hcomplete
  intro hcase
  by_cases hgate : gate nvram = true
  · rw [ndpiMigrateRules_of_gate protos hgate]
    have hcomplete : ∀ key ∈ ruleKeys, ∀ name ∈ protocolNames key
        (if key ∈ ruleKeys then withNames (newName protos) key (nvram key)
          else nvram key), ¬ IsOld protos name := by
      intro key hkey name hname
      rw [if_pos hkey, protocolNames_withNames] at hname
      obtain ⟨old, -, rfl⟩ := mem_map.mp hname
      exact not_isOld_newName protos old
    refine ⟨hcomplete, fun key hkey => ?_, fun key hkey => if_neg hkey,
      ndpiMigrateRules_of_not_isOld hcomplete⟩
    exact ⟨newName protos, fun _ => newName_eq_self, if_pos hkey⟩
  · have hnames := hcase.resolve_left hgate
    rw [ndpiMigrateRules_of_not_isOld hnames]
    refine ⟨hnames, fun key _ => ?_, fun _ _ => rfl,
      ndpiMigrateRules_of_not_isOld hnames⟩
    exact ⟨id, fun _ _ => rfl, (withNames_eq_self key _ fun _ _ => rfl).symm⟩

/-- A QoS rule for an old name with capital letters, and nothing else. -/
def capitals : Nvram := fun key =>
  if key = qosKey then bytes "0<<-1<a<<Skype_Teams<<<1<Calls" else []

theorem gate_capitals : gate capitals ≠ true := by
  have hmentions : ∀ entry ∈ ndpiRenamed,
      mentions (bytes "0<<-1<a<<Skype_Teams<<<1<Calls") entry.1 = false ∧
        mentions [] entry.1 = false := by decide
  intro hgate
  obtain ⟨entry, hentry, hany⟩ := any_eq_true.mp hgate
  obtain ⟨key, -, hkey⟩ := any_eq_true.mp hany
  obtain ⟨hrule, hempty⟩ := hmentions entry hentry
  rw [capitals] at hkey
  split at hkey
  · rw [hrule] at hkey
    cases hkey
  · rw [hempty] at hkey
    cases hkey

/-- The gate does not find the name with its capital letters. -/
theorem not_migrated_capitals :
    ¬ Migrated (some [bytes "Teams", bytes "TeamsCall"]) capitals
      (ndpiMigrateRules (some [bytes "Teams", bytes "TeamsCall"])
        capitals).1 := by
  intro hmigrated
  have hname : bytes "Skype_Teams" ∈
      protocolNames qosKey (capitals qosKey) := by decide
  have hcomplete := hmigrated.complete qosKey mem_cons_self
    (bytes "Skype_Teams")
  rw [ndpiMigrateRules, if_neg gate_capitals] at hcomplete
  refine hcomplete hname ⟨(bytes "skype_teams", bytes "teams"), ?_, ?_, ?_⟩
  · exact mem_cons_self
  · decide
  · decide

end Tomato64.Ndpi
