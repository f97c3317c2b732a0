import Tomato64.Core.Scan
import Tomato64.Shared.Misc

/-!
# Settings of a WireGuard unit

The port and the mark of a unit, as `wireguard.c` keeps them in the context of
the unit.  Without a mark of its own a unit uses its port as the mark.
-/

namespace Tomato64.Wireguard

open Text Scan Shared

abbrev wgInterfaceMax : ℕ := 3

/-- The name of a setting of a unit, such as `wg0_port`. -/
def key (unit : Fin wgInterfaceMax) (name : String) : Bytes :=
  bytes "wg" ++ (decimal unit.val ++ (ascii '_' :: bytes name))

variable {unit : Fin wgInterfaceMax}

theorem bytes_eq_of_key_eq {name other : String}
    (heq : key unit name = key unit other) : bytes name = bytes other := by
  have htail := List.append_cancel_left (List.append_cancel_left heq)
  exact (List.cons.inj htail).2

variable (nvram : Nvram)

/-- `getNVRAMVar` -/
def getNVRAMVar (unit : Fin wgInterfaceMax) (name : String) : Bytes :=
  nvram (key unit name)

def defaultPort (unit : Fin wgInterfaceMax) : ℕ :=
  51820 + unit.val

def portNumber (unit : Fin wgInterfaceMax) : ℕ :=
  match strtol (getNVRAMVar nvram unit "port") with
  | some (port, []) =>
    if 1 ≤ port ∧ port ≤ 65535 then port.toNat else defaultPort unit
  | _ => defaultPort unit

def wgSetPort (unit : Fin wgInterfaceMax) : Bytes :=
  decimal (portNumber nvram unit)

/-- The unit has a mark of its own: eight hexadecimal digits. -/
def HasFwmark (unit : Fin wgInterfaceMax) : Prop :=
  (getNVRAMVar nvram unit "fwmark").length = 8 ∧
    ∀ char ∈ getNVRAMVar nvram unit "fwmark", isDigitOf 16 char = true

instance (nvram : Nvram) (unit : Fin wgInterfaceMax) :
    Decidable (HasFwmark nvram unit) :=
  inferInstanceAs (Decidable (_ ∧ _))

def wgSetFwmark (unit : Fin wgInterfaceMax) : Bytes :=
  if getNVRAMVar nvram unit "fwmark" = [] ∨
      getNVRAMVar nvram unit "fwmark" = bytes "0" then wgSetPort nvram unit
  else if HasFwmark nvram unit then getNVRAMVar nvram unit "fwmark"
  else wgSetPort nvram unit

theorem wgSetFwmark_of_not_hasFwmark {nvram : Nvram}
    (hmark : ¬ HasFwmark nvram unit) :
    wgSetFwmark nvram unit = wgSetPort nvram unit := by
  rw [wgSetFwmark, if_neg hmark, ite_self]

/-- A port is the one of the setting or the default of the unit. -/
theorem portNumber_eq (unit : Fin wgInterfaceMax) :
    (∃ port : ℕ, 1 ≤ port ∧ port ≤ 65535 ∧ portNumber nvram unit = port ∧
        strtol (getNVRAMVar nvram unit "port") = some ((port : ℤ), [])) ∨
      portNumber nvram unit = defaultPort unit := by
  unfold portNumber
  split
  · next port hport =>
    by_cases hrange : 1 ≤ port ∧ port ≤ 65535
    · refine .inl ⟨port.toNat, by omega, by omega, if_pos hrange, ?_⟩
      rw [hport, Int.toNat_of_nonneg (by omega)]
    · exact .inr (if_neg hrange)
  · exact .inr rfl

theorem portNumber_of_strtol {nvram : Nvram}
    {port : ℕ} (hlow : 1 ≤ port) (hhigh : port ≤ 65535)
    (hport : strtol (getNVRAMVar nvram unit "port") = some ((port : ℤ), [])) :
    portNumber nvram unit = port := by
  have hrange : 1 ≤ (port : ℤ) ∧ (port : ℤ) ≤ 65535 := by omega
  rw [portNumber, hport]
  simp [hrange]

theorem one_le_portNumber (unit : Fin wgInterfaceMax) :
    1 ≤ portNumber nvram unit := by
  rcases portNumber_eq nvram unit with ⟨port, hlow, -, heq, -⟩ | hdefault
  · omega
  · rw [hdefault, defaultPort]
    omega

theorem portNumber_le (unit : Fin wgInterfaceMax) :
    portNumber nvram unit ≤ 65535 := by
  rcases portNumber_eq nvram unit with ⟨port, -, hhigh, heq, -⟩ | hdefault
  · omega
  · have hunit : unit.val < 3 := unit.isLt
    rw [hdefault, defaultPort]
    omega

/-! ## The text of the mark -/

theorem length_wgSetPort_le (unit : Fin wgInterfaceMax) :
    (wgSetPort nvram unit).length ≤ 5 := by
  have hport := portNumber_le nvram unit
  exact length_decimal_le_of_lt (by omega)

/-- A mark has one to eight hexadecimal digits. -/
structure IsFwmark (fwmark : Bytes) : Prop where
  ne_nil : fwmark ≠ []
  length_le : fwmark.length ≤ 8
  digits : ∀ char ∈ fwmark, isDigitOf 16 char = true

theorem isFwmark_wgSetPort (unit : Fin wgInterfaceMax) :
    IsFwmark (wgSetPort nvram unit) := by
  obtain ⟨first, others, hdecimal, -⟩ :=
    exists_decimal_eq_cons (portNumber nvram unit)
  have hlength := length_wgSetPort_le nvram unit
  refine ⟨?_, by omega, fun char hchar => ?_⟩
  · rw [wgSetPort, hdecimal]
    exact List.cons_ne_nil _ _
  · apply isDigitOf_mono
    rw [isDigitOf_ten]
    exact isDigit_of_mem_decimal _ char hchar

theorem isFwmark_wgSetFwmark (unit : Fin wgInterfaceMax) :
    IsFwmark (wgSetFwmark nvram unit) := by
  by_cases hmark : HasFwmark nvram unit
  · rw [wgSetFwmark, if_pos hmark]
    split
    · exact isFwmark_wgSetPort nvram unit
    · next hgiven =>
      exact ⟨fun hnil => hgiven (.inl hnil), hmark.1.le, hmark.2⟩
  · rw [wgSetFwmark_of_not_hasFwmark hmark]
    exact isFwmark_wgSetPort nvram unit

end Tomato64.Wireguard
