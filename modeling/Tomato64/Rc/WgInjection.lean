import Tomato64.Core.Run
import Tomato64.Rc.WgScript

/-!
# Settings in the routing scripts

The routes, the table and the priority get into the scripts as they are stored.
A script reads as its templates mean it exactly if each of the values that are
used is one word for the shell.
-/

namespace Tomato64.WgScript

open List Scan Shared Shell Text
open Wireguard Run

variable {pieces : List Piece}

theorem safe_command
    (hlength : (lineOf pieces).length ≤ 255)
    (hliteral : pieces.Forall Piece.Literal) : Safe (.command pieces) := by
  have hpieces := forall_iff_forall_mem.mp hliteral
  refine ⟨?_, fun text hvalue => (hpieces _ hvalue).2⟩
  rw [take_of_length_le hlength]
  exact lex_lineOf fun piece hpiece => (hpieces piece hpiece).proper

theorem safe_epilog
    (hliteral : pieces.Forall Piece.Literal) : Safe (.epilog pieces) := by
  have hpieces := forall_iff_forall_mem.mp hliteral
  exact ⟨lex_lineOf fun piece hpiece => (hpieces piece hpiece).proper,
    fun _ hvalue => (hpieces _ hvalue).2⟩

theorem isLiteral_of_safe
    (hsafe : Safe (.command pieces)) {text : Bytes}
    (hvalue : .value text ∈ pieces) : IsLiteral text :=
  ⟨isWord_of_lex_eq hsafe.1 hvalue, hsafe.2 text hvalue⟩

theorem safe_copied {fwmark route : Bytes} (hmark : IsLiteral fwmark)
    (hlength : fwmark.length ≤ 8)
    (hroute : ∀ char ∈ route, isPlain char = true ∨ isBlank char = true) :
    Safe (.copied fwmark route) := by
  have hliteral : (copiedPieces fwmark).Forall Piece.Literal :=
    ⟨literal_fixed (by decide), hmark⟩
  have hpieces := forall_iff_forall_mem.mp hliteral
  have hfront : (lineOf (copiedPieces fwmark)).length < 255 := by
    simp [lineOf, copiedPieces, Piece.text, bytes]
    omega
  obtain ⟨room, hroom⟩ : ∃ room,
      255 = (lineOf (copiedPieces fwmark)).length + (room + 1) :=
    ⟨254 - (lineOf (copiedPieces fwmark)).length, by omega⟩
  have hplain : State.Plain .between := trivial
  obtain ⟨words, hwords, hexpands⟩ := exists_lexFrom_plain
    (fun char hchar => hroute char (mem_of_mem_take (i := room) hchar))
    hplain
  refine ⟨words, ?_, forall_mem_cons.mpr ⟨hmark.2, hexpands⟩⟩
  rw [Line.text, hroom, take_length_add_append, take_succ_cons,
    lex_lineOf_append (by simp [copiedPieces])
      (fun piece hpiece => (hpieces piece hpiece).proper), Shell.lex, hwords]
  rfl

/-! ## Text of several templates -/

theorem literal_dev : Piece.Literal (.fixed (bytes "dev")) :=
  literal_fixed (by decide)

theorem literal_table : Piece.Literal (.fixed (bytes "table")) :=
  literal_fixed (by decide)

theorem literal_orTrue : Piece.Literal (.fixed (bytes "|| true")) := by
  decide

theorem literal_quiet :
    Piece.Literal (.fixed (bytes "2>/dev/null || true")) := by
  decide

/-! ## Values that come from the unit -/

theorem isPlain_of_isDigitOf {char : Byte} :
    isDigitOf 16 char = true → isPlain char = true :=
  forall_byte (p := fun char => isDigitOf 16 char = true → isPlain char = true)
    (by decide +kernel) char

theorem isPlain_decimal (number : ℕ) :
    ∀ char ∈ decimal number, isPlain char = true := by
  intro char hchar
  apply isPlain_of_isDigitOf
  apply isDigitOf_mono
  rw [isDigitOf_ten]
  exact isDigit_of_mem_decimal number char hchar

variable (unit : Fin wgInterfaceMax)

theorem isPlain_iface :
    ∀ char ∈ iface unit, isPlain char = true := by
  have hfront : ∀ char ∈ bytes "wg", isPlain char = true := by decide
  rw [iface, forall_mem_append]
  exact ⟨hfront, isPlain_decimal unit.val⟩

theorem length_iface :
    (iface unit).length = 3 := by
  have hunit : unit.val < 3 := unit.isLt
  rw [iface, decimal, if_pos (by omega)]
  rfl

theorem isLiteral_iface :
    IsLiteral (iface unit) := by
  refine isLiteral_of_plain ?_ (isPlain_iface unit)
  intro hnil
  have hlength := length_iface unit
  rw [hnil] at hlength
  cases hlength

section
variable {fwmark : Bytes} (hmark : IsFwmark fwmark)
include hmark

theorem isPlain_fwmark : ∀ char ∈ fwmark, isPlain char = true :=
  fun char hchar => isPlain_of_isDigitOf (hmark.digits char hchar)

theorem isLiteral_fwmark : IsLiteral fwmark :=
  isLiteral_of_plain hmark.ne_nil (isPlain_fwmark hmark)

theorem isLiteral_fwmarkMask : IsLiteral (fwmarkMask fwmark) := by
  have hback : ∀ char ∈ bytes "/0xf00", isPlain char = true := by decide
  refine isLiteral_of_plain ?_ fun char hchar => ?_
  · simp [fwmarkMask, hmark.ne_nil]
  · have hall := forall_mem_append.mpr ⟨isPlain_fwmark hmark, hback⟩
    exact hall char (mem_of_mem_take hchar)

theorem isLiteral_wgroutingMark : IsLiteral (wgroutingMark fwmark) := by
  have hfront : ∀ char ∈ bytes "wgrouting", isPlain char = true := by decide
  refine isLiteral_of_plain ?_ fun char hchar => ?_
  · simp [wgroutingMark, bytes]
  · have hall := forall_mem_append.mpr ⟨hfront, isPlain_fwmark hmark⟩
    exact hall char (mem_of_mem_take hchar)

end

/-! ## Messages -/

theorem isQuotable_of_isPlain {char : Byte} :
    isPlain char = true → isQuotable char = true :=
  forall_byte (p := fun char => isPlain char = true → isQuotable char = true)
    (by decide +kernel) char

theorem isQuotable_iface :
    ∀ char ∈ iface unit, isQuotable char = true :=
  fun char hchar => isQuotable_of_isPlain (isPlain_iface unit char hchar)

theorem safe_logLine {level : String} {message : Bytes}
    (hlevel : Piece.Literal (.fixed (bytes level)))
    (hlength : (bytes level).length + message.length ≤ 210)
    (hmessage : ∀ char ∈ message, isQuotable char = true) :
    Safe (logLine level message) := by
  apply safe_command
  · simp [lineOf, Piece.text, quoted, bytes] at hlength ⊢
    omega
  · exact ⟨literal_fixed (by decide), hlevel, by decide,
      isLiteral_quoted hmessage, literal_orTrue⟩

/-! ## The lines of the peers -/

theorem isLiteral_maskMessage : IsLiteral (quoted maskMessage) := by
  apply isLiteral_quoted
  rw [maskMessage, forall_mem_append, forall_mem_append]
  exact ⟨⟨by decide, by decide⟩, by decide⟩

theorem length_maskMessage : maskMessage.length = 152 := by
  simp [maskMessage, bytes]

section
variable (unit : Fin wgInterfaceMax) {route : Bytes}

theorem literal_routePeerStart (hroute : IsLiteral route) :
    [Piece.fixed (bytes "run_cmd --msg"), .value (quoted maskMessage),
      .fixed (bytes "ip route replace"), .value route, .fixed (bytes "dev"),
      .value (iface unit), .fixed (bytes "table")].Forall Piece.Literal :=
  ⟨literal_fixed (by decide), isLiteral_maskMessage, literal_fixed (by decide),
    hroute, literal_dev, isLiteral_iface unit, literal_table⟩

/-- The line of a route in the main table. -/
theorem safe_routePeerStart_none (hlength : route.length ≤ 31) :
    Safe (routePeerStart unit route none) ↔ IsLiteral route := by
  constructor
  · intro hsafe
    exact isLiteral_of_safe hsafe (by simp)
  intro hroute
  apply safe_command
  · have hiface := length_iface unit
    have hmessage := length_maskMessage
    simp [lineOf, Piece.text, quoted, tablePieces, bytes, hiface, hmessage]
    omega
  · have hverb : Piece.Literal (.fixed (bytes "ip route add")) :=
      literal_fixed (by decide)
    exact ⟨literal_fixed (by decide), isLiteral_maskMessage, hverb, hroute,
      literal_dev, isLiteral_iface unit⟩

/-- The line of a route in a table of its own.  It may be cut. -/
theorem safe_routePeerStart_some {table : Bytes}
    (hlength : route.length ≤ 31) :
    Safe (routePeerStart unit route (some table)) ↔
      IsLiteral route ∧ IsLiteral table ∧
        route.length + table.length ≤ 54 := by
  have hiface := length_iface unit
  have hmessage := length_maskMessage
  constructor
  · intro hsafe
    have hroute : IsLiteral route := isLiteral_of_safe hsafe (by simp)
    have htable : IsLiteral table :=
      isLiteral_of_safe hsafe (by simp [tablePieces])
    have hfront := forall_iff_forall_mem.mp (literal_routePeerStart unit hroute)
    refine ⟨hroute, htable, ?_⟩
    have hfit := length_le_of_lex_take (cons_ne_nil _ _)
      (fun piece hpiece => (hfront piece hpiece).proper)
      (by
        simp [lineOf, Piece.text, quoted, bytes, hiface, hmessage]
        omega)
      hsafe.1
    simp [lineOf, Piece.text, quoted, bytes, hiface, hmessage] at hfit
    omega
  · rintro ⟨hroute, htable, hfits⟩
    apply safe_command
    · simp [lineOf, Piece.text, quoted, tablePieces, bytes, hiface, hmessage]
      omega
    · have hverb : Piece.Literal (.fixed (bytes "ip route replace")) :=
        literal_fixed (by decide)
      exact ⟨literal_fixed (by decide), isLiteral_maskMessage, hverb, hroute,
        literal_dev, isLiteral_iface unit, literal_table, htable⟩

theorem safe_routePeerStop {table : Option Bytes} (hroute : IsLiteral route)
    (hlength : route.length ≤ 31)
    (htable : ∀ name ∈ table, IsLiteral name ∧ name.length ≤ 54) :
    Safe (routePeerStop unit route table) := by
  have hiface := length_iface unit
  cases table with
  | none =>
    apply safe_command
    · simp [lineOf, Piece.text, tablePieces, bytes, hiface]
      omega
    · exact ⟨literal_fixed (by decide), hroute, literal_dev,
        isLiteral_iface unit⟩
  | some name =>
    obtain ⟨hname, hnameLength⟩ := htable name rfl
    apply safe_command
    · simp [lineOf, Piece.text, tablePieces, bytes, hiface]
      omega
    · exact ⟨literal_fixed (by decide), hroute, literal_dev,
        isLiteral_iface unit, literal_table, hname⟩

end

/-! ## The lines that are written once -/

theorem safe_fixed {text : Bytes} (hlength : text.length ≤ 255)
    (htext : Piece.Literal (.fixed text)) : Safe (.command [.fixed text]) := by
  apply safe_command
  · simpa [lineOf, Piece.text] using hlength
  · exact htext

theorem safe_flushCache : Safe flushCache :=
  safe_fixed (by decide) (literal_fixed (by decide))

theorem safe_defaultStarts : defaultStarts.Forall Safe := by
  apply safe_command
  · simp [lineOf, Piece.text, bytes]
  · exact ⟨literal_fixed (by decide), literal_quiet⟩

theorem safe_modprobe {name : String} (hlength : (bytes name).length ≤ 200)
    (hname : Piece.Literal (.fixed (bytes name))) : Safe (modprobe name) := by
  apply safe_command
  · simp [lineOf, Piece.text, bytes] at hlength ⊢
    omega
  · exact ⟨literal_fixed (by decide), hname, literal_orTrue⟩

section
variable {fwmark : Bytes} (hmark : IsFwmark fwmark)
include hmark

theorem safe_flushTable : Safe (flushTable fwmark) := by
  have hlength := hmark.length_le
  apply safe_command
  · simp [lineOf, Piece.text, bytes]
    omega
  · exact ⟨literal_fixed (by decide), isLiteral_fwmark hmark⟩

theorem safe_defaultStops : (defaultStops fwmark).Forall Safe := by
  have hlength := hmark.length_le
  have hvalue := isLiteral_fwmark hmark
  refine ⟨safe_flushCache, safe_flushTable hmark,
    safe_fixed (by decide) (literal_fixed (by decide)), ?_⟩
  apply safe_command
  · simp [lineOf, Piece.text, bytes]
    omega
  · exact ⟨literal_fixed (by decide), hvalue, literal_table, hvalue⟩

theorem safe_defaultEpilog : (defaultEpilog fwmark).Forall Safe := by
  have hvalue := isLiteral_fwmark hmark
  refine ⟨safe_epilog ⟨literal_fixed (by decide), hvalue, literal_table,
    hvalue⟩, ?_⟩
  exact safe_epilog (literal_fixed (by decide))

theorem safe_policyStops (env : Env) :
    (policyStops env fwmark).Forall Safe := by
  have hlength := hmark.length_le
  have hvalue := isLiteral_fwmark hmark
  have hmask := isLiteral_fwmarkMask hmark
  have hset := isLiteral_wgroutingMark hmark
  have hdelete : Safe (.command
      [.fixed (bytes "run_cmd ip rule delete fwmark"),
        .value (fwmarkMask fwmark), .fixed (bytes "table"), .value fwmark]) := by
    apply safe_command
    · simp [lineOf, Piece.text, bytes, fwmarkMask]
      omega
    · exact ⟨literal_fixed (by decide), hmask, literal_table, hvalue⟩
  have hdestroy : Safe (.command
      [.fixed (bytes "run_cmd ipset destroy"),
        .value (wgroutingMark fwmark)]) := by
    apply safe_command
    · have hname := length_wgroutingMark_le fwmark
      simp [lineOf, Piece.text, bytes]
      omega
    · exact ⟨literal_fixed (by decide), hset⟩
  rw [policyStops]
  cases env.hasDomains with
  | true => exact ⟨hdestroy, safe_flushCache, safe_flushTable hmark, hdelete⟩
  | false => exact ⟨safe_flushCache, safe_flushTable hmark, hdelete⟩

theorem safe_routeBridges (env : Env) :
    ∀ line ∈ routeBridges env fwmark, Safe line := by
  have hlength := hmark.length_le
  have hvalue := isLiteral_fwmark hmark
  intro line hline
  obtain ⟨bridge, hbridge, rfl⟩ := mem_map.mp hline
  obtain ⟨hne, hshort, hplain⟩ := env.bridges_plain bridge hbridge
  have hdecimal : (decimal bridge.1.val).length ≤ 1 :=
    length_decimal_le_of_lt (show bridge.1.val < 10 ^ (0 + 1) by omega)
  have hfront : ∀ char ∈ bytes "br", isPlain char = true := by decide
  have hname : IsLiteral (bytes "br" ++ decimal bridge.1.val) := by
    apply isLiteral_of_plain
    · simp [bytes]
    · exact forall_mem_append.mpr ⟨hfront, isPlain_decimal _⟩
  apply safe_command
  · simp [lineOf, Piece.text, bytes]
    omega
  · exact ⟨literal_fixed (by decide), isLiteral_of_plain hne hplain,
      literal_dev, hname, literal_table, hvalue⟩

theorem isQuotable_fwmark : ∀ char ∈ fwmark, isQuotable char = true :=
  fun char hchar => isQuotable_of_isPlain (isPlain_fwmark hmark char hchar)

theorem safe_initTable (env : Env) (unit : Fin wgInterfaceMax) (mode : Mode) :
    ∀ line ∈ initTable env unit fwmark mode, Safe line := by
  have hlength := hmark.length_le
  have hiface := length_iface unit
  have hname := isQuotable_iface unit
  rw [initTable, forall_mem_cons]
  constructor
  · apply safe_logLine (literal_fixed (by decide))
    · cases mode <;> simp [bytes, hiface] <;> omega
    · simp only [forall_mem_append]
      refine ⟨by decide, hname, by decide, isQuotable_fwmark hmark, ?_⟩
      cases mode <;> decide
  intro line hline
  obtain ⟨route, hroute, rfl⟩ := mem_map.mp hline
  cases route with
  | none =>
    apply safe_logLine (literal_fixed (by decide))
    · simp [bytes, hiface]
    · simp only [forall_mem_append]
      exact ⟨by decide, by decide, hname⟩
  | some route =>
    exact safe_copied (isLiteral_fwmark hmark) hlength
      (env.routes_plain route hroute)

omit hmark in
theorem length_priority_le (nvram : Nvram) (unit : Fin wgInterfaceMax) :
    (priority nvram unit).length ≤ 15 := by
  have hunit : unit.val < 3 := unit.isLt
  rw [priority]
  split
  · have hlength := length_decimal_le_of_lt
      (show 100 + unit.val < 10 ^ (2 + 1) by omega)
    omega
  · exact length_take_le 15 _

/-- Of the lines of a policy only the one with the priority can fail. -/
theorem safe_policyStarts_iff (nvram : Nvram) (env : Env)
    (unit : Fin wgInterfaceMax) (mode : Mode) :
    (∀ line ∈ policyStarts nvram env unit fwmark mode, Safe line) ↔
      IsLiteral (priority nvram unit) := by
  have hlength := hmark.length_le
  have hvalue := isLiteral_fwmark hmark
  have hmask := isLiteral_fwmarkMask hmark
  have hset := isLiteral_wgroutingMark hmark
  have hiface := length_iface unit
  have hname := isLiteral_iface unit
  constructor
  · intro hsafe
    have hrule := hsafe (.command
      [.fixed (bytes "run_cmd ip rule add fwmark"), .value (fwmarkMask fwmark),
        .fixed (bytes "table"), .value fwmark, .fixed (bytes "priority"),
        .value (priority nvram unit)]) (by simp [policyStarts])
    exact isLiteral_of_safe hrule (by simp)
  intro hpriority
  have hshort := length_priority_le nvram unit
  have hlt : unit.val < 3 := unit.isLt
  have hdecimal : (decimal unit.val).length ≤ 1 :=
    length_decimal_le_of_lt (show unit.val < 10 ^ (0 + 1) by omega)
  have hunit : ∀ char ∈ decimal unit.val, isQuotable char = true :=
    fun char hchar =>
      isQuotable_of_isPlain (isPlain_decimal unit.val char hchar)
  simp only [policyStarts, forall_mem_append, ← forall_iff_forall_mem]
  refine ⟨⟨⟨⟨?_, ?_, ?_, ?_,
    safe_modprobe (by decide) (literal_fixed (by decide)),
    safe_modprobe (by decide) (literal_fixed (by decide)),
    safe_modprobe (by decide) (literal_fixed (by decide)),
    ?_, ?_⟩, ?_⟩, ?_⟩, ?_, safe_flushCache, ?_⟩
  · apply safe_command
    · simp [lineOf, Piece.text, bytes, fwmarkMask]
      omega
    · exact ⟨literal_fixed (by decide), hmask, literal_table, hvalue,
        literal_quiet⟩
  · apply safe_command
    · simp [lineOf, Piece.text, bytes]
      omega
    · exact ⟨literal_fixed (by decide), hvalue, literal_quiet⟩
  · apply safe_command
    · simp [lineOf, Piece.text, bytes, hiface]
    · exact ⟨literal_fixed (by decide), hname, literal_fixed (by decide)⟩
  · apply safe_logLine (literal_fixed (by decide))
    · simp [bytes, hiface]
      omega
    · simp only [forall_mem_append]
      exact ⟨by decide, hunit, by decide, isQuotable_iface unit, by decide,
        isQuotable_fwmark hmark⟩
  · apply safe_command
    · simp [lineOf, Piece.text, bytes, hiface]
      omega
    · exact ⟨literal_fixed (by decide), hname, literal_table, hvalue⟩
  · apply safe_command
    · simp [lineOf, Piece.text, bytes, fwmarkMask]
      omega
    · exact ⟨literal_fixed (by decide), hmask, literal_table, hvalue,
        literal_fixed (by decide), hpriority⟩
  · exact forall_iff_forall_mem.mpr (safe_initTable hmark env unit mode)
  · exact forall_iff_forall_mem.mpr (safe_routeBridges hmark env)
  · apply safe_command
    · have hlimit := length_wgroutingMark_le fwmark
      simp [lineOf, Piece.text, bytes]
      omega
    · exact ⟨literal_fixed (by decide), hset, literal_fixed (by decide)⟩
  · apply safe_logLine (literal_fixed (by decide))
    · simp [bytes, hiface]
      omega
    · simp only [forall_mem_append]
      exact ⟨by decide, by decide, isQuotable_iface unit, by decide,
        isQuotable_fwmark hmark⟩

end

/-! ## Adding lines -/

theorem foldl_addStart (starts : List Line) (context : Context) :
    starts.foldl (fun context line => addStart line context) context =
      { context with start := context.start ++ starts } := by
  induction starts generalizing context with
  | nil => simp
  | cons line starts ih =>
    rw [foldl_cons, ih]
    simp [addStart]

/-- Lines for the stop script are added while there is room. -/
theorem exists_foldl_addStop (stops : List Line) (context : Context) :
    ∃ added length, (∀ line ∈ added, line ∈ stops) ∧
      stops.foldl (fun context line => addStop line context) context =
        { context with stop := added ++ context.stop, stopLen := length } := by
  induction stops generalizing context with
  | nil => exact ⟨[], context.stopLen, by simp, rfl⟩
  | cons line stops ih =>
    obtain ⟨added, length, hadded, hfold⟩ := ih (addStop line context)
    rw [foldl_cons, hfold, addStop]
    split
    · exact ⟨added, length, fun other hother =>
        mem_cons_of_mem _ (hadded other hother), rfl⟩
    refine ⟨added ++ [line], length, ?_, by simp⟩
    rw [forall_mem_append]
    refine ⟨fun other hother =>
      mem_cons_of_mem _ (hadded other hother), ?_⟩
    simp

def AllSafe (context : Context) : Prop :=
  ∀ line ∈ context.lines, Safe line

theorem allSafe_iff (context : Context) :
    AllSafe context ↔ (∀ line ∈ context.start, Safe line) ∧
      (∀ line ∈ context.epilog, Safe line) ∧
        ∀ line ∈ context.stop, Safe line := by
  simp only [AllSafe, Context.lines, forall_mem_append, and_assoc]

theorem exists_addAll (starts stops : List Line) (context : Context) :
    ∃ added length, (∀ line ∈ added, line ∈ stops) ∧
      addAll starts stops context =
        { context with
          start := context.start ++ starts
          stop := added ++ context.stop
          stopLen := length } := by
  rw [addAll, foldl_addStart]
  exact exists_foldl_addStop stops _

/-- If the lines of the stop script are as safe as those of the start script,
only the latter matter. -/
theorem allSafe_addAll_iff {starts stops : List Line}
    (hstops : (∀ line ∈ starts, Safe line) → ∀ line ∈ stops, Safe line)
    (context : Context) :
    AllSafe (addAll starts stops context) ↔
      AllSafe context ∧ ∀ line ∈ starts, Safe line := by
  obtain ⟨added, length, hadded, heq⟩ := exists_addAll starts stops context
  rw [heq, allSafe_iff, allSafe_iff, forall_mem_append, forall_mem_append]
  constructor
  · rintro ⟨⟨hstart, hstarts⟩, hepilog, -, hstop⟩
    exact ⟨⟨hstart, hepilog, hstop⟩, hstarts⟩
  · rintro ⟨⟨hstart, hepilog, hstop⟩, hstarts⟩
    exact ⟨⟨hstart, hstarts⟩, hepilog,
      fun line hline => hstops hstarts line (hadded line hline), hstop⟩

/-! ## The entries -/

/-- What the scripts need of an allowed IP and of the settings that are used
for it. -/
def EntrySafe (nvram : Nvram) (unit : Fin wgInterfaceMax) (entry : Entry) :
    Prop :=
  match detectRoutingMode nvram unit entry.isDefault with
  | .standard =>
    IsLiteral entry.route ∧ ∀ table ∈ routeTable nvram unit,
      IsLiteral table ∧ entry.route.length + table.length ≤ 54
  | .default => IsLiteral entry.route
  | .policy | .strict =>
    getNVRAMVar nvram unit "prio" = [] ∨
      IsLiteral ((getNVRAMVar nvram unit "prio").take 15)

theorem isLiteral_decimal (number : ℕ) : IsLiteral (decimal number) := by
  obtain ⟨first, others, hdecimal, -⟩ := exists_decimal_eq_cons number
  refine isLiteral_of_plain ?_ (isPlain_decimal number)
  rw [hdecimal]
  exact cons_ne_nil _ _

theorem isLiteral_priority_iff (nvram : Nvram) (unit : Fin wgInterfaceMax) :
    IsLiteral (priority nvram unit) ↔
      getNVRAMVar nvram unit "prio" = [] ∨
        IsLiteral ((getNVRAMVar nvram unit "prio").take 15) := by
  rw [priority]
  split
  · next hempty => simp [hempty, isLiteral_decimal]
  · next hgiven => simp [hgiven]

/-- What holds between the entries.  Lines of a policy have been written only
with a proper priority. -/
structure Between (nvram : Nvram) (unit : Fin wgInterfaceMax)
    (context : Context) : Prop where
  epilog : context.defaultConfigured = false → context.epilog = []
  policy : context.policyConfigured = true → AllSafe context →
    IsLiteral (priority nvram unit)

section
variable {nvram : Nvram} {unit : Fin wgInterfaceMax} {context : Context}

theorem standard_entry (hcontext : Between nvram unit context) {route : Bytes}
    (hlength : route.length ≤ 31) (table : Option Bytes) :
    (AllSafe (snapshotStandard unit route table context) ↔
      AllSafe context ∧ IsLiteral route ∧ ∀ name ∈ table,
        IsLiteral name ∧ route.length + name.length ≤ 54) ∧
      Between nvram unit (snapshotStandard unit route table context) := by
  have hline : Safe (routePeerStart unit route table) ↔
      IsLiteral route ∧ ∀ name ∈ table,
        IsLiteral name ∧ route.length + name.length ≤ 54 := by
    cases table with
    | none => simp [safe_routePeerStart_none unit hlength]
    | some name => simp [safe_routePeerStart_some unit hlength]
  have hsafe : AllSafe (snapshotStandard unit route table context) ↔
      AllSafe context ∧ Safe (routePeerStart unit route table) := by
    rw [snapshotStandard, allSafe_addAll_iff]
    · simp
    simp only [forall_mem_singleton]
    intro hstart
    obtain ⟨hroute, htable⟩ := hline.mp hstart
    refine safe_routePeerStop unit hroute hlength fun name hname => ?_
    obtain ⟨hliteral, hshort⟩ := htable name hname
    exact ⟨hliteral, by omega⟩
  refine ⟨hsafe.trans (and_congr_right fun _ => hline), ?_⟩
  obtain ⟨added, length, -, heq⟩ := exists_addAll
    [routePeerStart unit route table] [routePeerStop unit route table] context
  refine ⟨fun hconfigured => ?_, fun hconfigured hall => ?_⟩
  · rw [snapshotStandard, heq] at hconfigured ⊢
    exact hcontext.epilog hconfigured
  · have hold := (hsafe.mp hall).1
    rw [snapshotStandard, heq] at hconfigured
    exact hcontext.policy hconfigured hold

/-- Lines that are written once do not matter if they are safe. -/
theorem forall_safe_once_iff {once : List Line} (honce : once.Forall Safe)
    (add : Bool) (line : Line) :
    (∀ other ∈ (if add then once else []) ++ [line], Safe other) ↔
      Safe line := by
  rw [forall_mem_append, forall_mem_singleton]
  refine and_iff_right ?_
  cases add with
  | true => exact forall_iff_forall_mem.mp honce
  | false => simp

theorem default_entry {fwmark : Bytes} (hmark : IsFwmark fwmark)
    (hcontext : Between nvram unit context) {route : Bytes}
    (hlength : route.length ≤ 31) :
    (AllSafe (snapshotDefault unit fwmark route context) ↔
      AllSafe context ∧ IsLiteral route) ∧
      Between nvram unit (snapshotDefault unit fwmark route context) := by
  have hvalue := isLiteral_fwmark hmark
  have hshort := hmark.length_le
  have hline : Safe (routePeerStart unit route (some fwmark)) ↔
      IsLiteral route := by
    rw [safe_routePeerStart_some unit hlength]
    exact ⟨fun hall => hall.1, fun hroute => ⟨hroute, hvalue, by omega⟩⟩
  have htable : ∀ name ∈ some fwmark, IsLiteral name ∧ name.length ≤ 54 := by
    intro name hname
    cases hname
    exact ⟨hvalue, by omega⟩
  have hstops : (∀ line ∈
      (if !context.defaultConfigured then defaultStarts else []) ++
        [routePeerStart unit route (some fwmark)], Safe line) →
      ∀ line ∈
        (if !context.defaultConfigured then defaultStops fwmark else []) ++
          [routePeerStop unit route (some fwmark)], Safe line := by
    rw [forall_safe_once_iff safe_defaultStarts,
      forall_safe_once_iff (safe_defaultStops hmark), hline]
    exact fun hroute => safe_routePeerStop unit hroute hlength htable
  have hadd := allSafe_addAll_iff hstops context
  rw [forall_safe_once_iff safe_defaultStarts, hline] at hadd
  obtain ⟨added, length, -, heq⟩ := exists_addAll
    ((if !context.defaultConfigured then defaultStarts else []) ++
      [routePeerStart unit route (some fwmark)])
    ((if !context.defaultConfigured then defaultStops fwmark else []) ++
      [routePeerStop unit route (some fwmark)]) context
  have hsafe : AllSafe (snapshotDefault unit fwmark route context) ↔
      AllSafe context ∧ IsLiteral route := by
    rw [← hadd, snapshotDefault, heq, allSafe_iff, allSafe_iff]
    refine and_congr_right fun _ => and_congr_left fun _ => ?_
    cases hconfigured : context.defaultConfigured with
    | true => exact Iff.rfl
    | false =>
      -- The epilog was empty until now.
      have hepilog := safe_defaultEpilog hmark
      rw [forall_iff_forall_mem] at hepilog
      simpa [hcontext.epilog hconfigured] using hepilog
  refine ⟨hsafe, fun hconfigured => ?_, fun hconfigured hall => ?_⟩
  · cases hconfigured
  · have hold := (hsafe.mp hall).1
    rw [snapshotDefault, heq] at hconfigured
    exact hcontext.policy hconfigured hold

theorem policy_entry {fwmark : Bytes} (hmark : IsFwmark fwmark) (env : Env)
    (hcontext : Between nvram unit context) (mode : Mode) :
    (AllSafe (snapshotPolicy nvram env unit fwmark mode context) ↔
      AllSafe context ∧ IsLiteral (priority nvram unit)) ∧
      Between nvram unit
        (snapshotPolicy nvram env unit fwmark mode context) := by
  rw [snapshotPolicy]
  split
  · next hconfigured =>
    refine ⟨⟨fun hall => ⟨hall, hcontext.policy hconfigured hall⟩,
      fun hall => hall.1⟩, hcontext⟩
  have hstops := forall_iff_forall_mem.mp (safe_policyStops hmark env)
  have hsafe : AllSafe (addAll (policyStarts nvram env unit fwmark mode)
      (policyStops env fwmark) { context with policyConfigured := true }) ↔
        AllSafe context ∧
          ∀ line ∈ policyStarts nvram env unit fwmark mode, Safe line :=
    allSafe_addAll_iff (fun _ => hstops) _
  rw [safe_policyStarts_iff hmark] at hsafe
  obtain ⟨added, length, -, heq⟩ := exists_addAll
    (policyStarts nvram env unit fwmark mode) (policyStops env fwmark)
    { context with policyConfigured := true }
  refine ⟨hsafe, fun hconfigured => ?_, fun _ hall => (hsafe.mp hall).2⟩
  rw [heq] at hconfigured ⊢
  exact hcontext.epilog hconfigured

/-- An entry spoils the scripts unless its values are words. -/
theorem snapshotRouteForEntry_iff (env : Env) (entry : Entry)
    (hcontext : Between nvram unit context) :
    (AllSafe (snapshotRouteForEntry nvram env unit context entry) ↔
      AllSafe context ∧ EntrySafe nvram unit entry) ∧
      Between nvram unit
        (snapshotRouteForEntry nvram env unit context entry) := by
  have hmark := isFwmark_wgSetFwmark nvram unit
  unfold snapshotRouteForEntry EntrySafe
  cases detectRoutingMode nvram unit entry.isDefault with
  | standard => exact standard_entry hcontext entry.route_length _
  | default => exact default_entry hmark hcontext entry.route_length
  | policy =>
    have hentry := policy_entry hmark env hcontext .policy
    rw [isLiteral_priority_iff] at hentry
    exact hentry
  | strict =>
    have hentry := policy_entry hmark env hcontext .strict
    rw [isLiteral_priority_iff] at hentry
    exact hentry

end

theorem allSafe_initial : AllSafe .initial := by
  intro line hline
  cases hline

section
variable (nvram : Nvram) (env : Env) (unit : Fin wgInterfaceMax)

theorem allSafe_entries_iff :
    AllSafe ((entries nvram unit).foldl (snapshotRouteForEntry nvram env unit)
        .initial) ↔
      ∀ entry ∈ entries nvram unit, EntrySafe nvram unit entry := by
  rw [foldl_iff_forall
    (fun context entry => snapshotRouteForEntry_iff env entry)
    ⟨fun _ => rfl, fun hconfigured => by cases hconfigured⟩]
  exact and_iff_right allSafe_initial

theorem entrySafe_of_injectionFree (hfree : InjectionFree nvram env unit)
    (htype : 0 < (routeSetting nvram unit).1) :
    ∀ entry ∈ entries nvram unit, EntrySafe nvram unit entry := by
  rw [InjectionFree, scripts, if_neg (by omega)] at hfree
  exact (allSafe_entries_iff nvram env unit).mp hfree

/-- The scripts of a unit read as their templates mean them if and only if the
values of every allowed IP are single words. -/
theorem injectionFree_iff :
    InjectionFree nvram env unit ↔
      (0 < (routeSetting nvram unit).1 →
        ∀ entry ∈ entries nvram unit, EntrySafe nvram unit entry) := by
  refine ⟨entrySafe_of_injectionFree nvram env unit, fun hall => ?_⟩
  rw [InjectionFree, scripts]
  split
  · exact allSafe_initial
  · next htype =>
    exact (allSafe_entries_iff nvram env unit).mpr (hall (by omega))

end

/-- One bridge, and two routes of which the second is too long. -/
def homeEnv : Env where
  bridges := [(0, bytes "192.168.1.0/24")]
  routes := [some (bytes "default via 10.0.0.1 dev vlan2"), none]
  hasDomains := true
  bridges_plain := by
    rintro bridge (_ | ⟨_, ⟨⟩⟩)
    decide
  routes_plain := by
    rintro route (_ | ⟨_, _ | ⟨_, ⟨⟩⟩⟩)
    decide

/-- One peer, with a command behind its address; all else is empty. -/
def rebootNvram : Nvram :=
  fun name =>
    if name = key unit "peers" then bytes "0<n<<k<<10.0.0.0/8;reboot<<25"
    else []

theorem not_injectionFree_reboot :
    ¬ InjectionFree (rebootNvram ⟨0, by decide⟩) homeEnv ⟨0, by decide⟩ := by
  intro hfree
  have hpeers : getNVRAMVar (rebootNvram ⟨0, by decide⟩) ⟨0, by decide⟩
      "peers" = bytes "0<n<<k<<10.0.0.0/8;reboot<<25" :=
    if_pos rfl
  have hroute : getNVRAMVar (rebootNvram ⟨0, by decide⟩) ⟨0, by decide⟩
      "route" = [] :=
    if_neg fun heq => absurd (bytes_eq_of_key_eq heq) (by decide)
  have htype : 0 < (routeSetting (rebootNvram ⟨0, by decide⟩)
      ⟨0, by decide⟩).1 := by
    rw [routeSetting, hroute]
    decide
  have hentry := entrySafe_of_injectionFree _ _ _ hfree htype
    ⟨bytes "10.0.0.0/8;reboot", false, by decide⟩
    (by
      rw [entries, hpeers]
      decide)
  have hroute : IsLiteral (bytes "10.0.0.0/8;reboot") := hentry.1
  exact absurd hroute (by decide)

end Tomato64.WgScript
