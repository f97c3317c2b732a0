import Tomato64.Core.Scan

/-!
# Helpers of the shared library

The functions of `strings.c` and `misc.c` on which several daemons rest: the
search for a word in a list, and the names and settings of the WAN units.
-/

namespace Tomato64.Shared

open Text Scan

/-- The settings as `nvram_safe_get` returns them: empty when not there. -/
abbrev Nvram := Bytes → Bytes

variable (nvram : Nvram)

/-- `nvram_get_int` -/
def Nvram.int (key : Bytes) : ℤ :=
  atoi (nvram key)

/-! ## Words -/

/-- What stands between the words of a list. -/
def isBreak (char : Byte) : Bool :=
  char = ascii ' ' || char = ascii ','

def endsWord : Bytes → Bool
  | [] => true
  | char :: _ => isBreak char

/-- The loop of `find_word`.  `starts` says that a word can start here. -/
def findWordFrom (word : Bytes) : Bool → Bytes → Bool
  | starts, [] => starts && word.isEmpty
  | starts, char :: rest =>
    (starts && word.isPrefixOf (char :: rest) &&
        endsWord ((char :: rest).drop word.length)) ||
      findWordFrom word (isBreak char) rest

/-- `find_word` as a test. -/
def findWord (buffer word : Bytes) : Bool :=
  findWordFrom word true buffer

section
variable {word : Bytes} (hword : ∀ char ∈ word, isBreak char = false)
include hword

/-- A word that starts the text is its first token. -/
theorem startsToken_iff (text : Bytes) :
    (word.isPrefixOf text && endsWord (text.drop word.length)) = true ↔
      (text.splitOnP isBreak).head? = some word := by
  induction text generalizing word with
  | nil => cases word <;> simp [endsWord]
  | cons char text ih =>
    obtain ⟨first, others, hsplit⟩ :=
      List.exists_cons_of_ne_nil (List.splitOnP_ne_nil isBreak text)
    rw [List.splitOnP_cons_eq_if_modifyHead]
    cases word with
    | nil => cases hbreak : isBreak char <;> simp [endsWord, hbreak, hsplit]
    | cons head word =>
      rw [List.forall_mem_cons] at hword
      have hrest := ih hword.2
      rw [hsplit, List.head?_cons, Option.some.injEq] at hrest
      cases hbreak : isBreak char with
      | true =>
        have hdiffer : head ≠ char := by
          rintro rfl
          exact absurd (hbreak.symm.trans hword.1) (by decide)
        simp [hdiffer]
      | false =>
        simp only [List.isPrefixOf_cons_cons, List.length_cons,
          List.drop_succ_cons, Bool.and_assoc, Bool.and_eq_true,
          beq_iff_eq] at hrest ⊢
        rw [hrest, hsplit]
        simp [eq_comm]

/-- Where no word can start, the token at hand is passed over. -/
theorem findWordFrom_iff (hne : word ≠ []) (starts : Bool) (text : Bytes) :
    findWordFrom word starts text = true ↔
      word ∈ (text.splitOnP isBreak).drop (if starts then 0 else 1) := by
  induction text generalizing starts with
  | nil => cases starts <;> simp [findWordFrom, hne]
  | cons char text ih =>
    have hstarts := startsToken_iff hword (char :: text)
    obtain ⟨first, others, hsplit⟩ :=
      List.exists_cons_of_ne_nil (List.splitOnP_ne_nil isBreak text)
    rw [findWordFrom, Bool.and_assoc, Bool.or_eq_true, Bool.and_eq_true,
      hstarts, ih, List.splitOnP_cons_eq_if_modifyHead, hsplit]
    cases starts <;> cases isBreak char <;> simp [hne, eq_comm]

/-- `find_word` finds exactly the tokens of the list. -/
theorem findWord_iff_mem (hne : word ≠ []) (buffer : Bytes) :
    findWord buffer word = true ↔ word ∈ buffer.splitOnP isBreak := by
  rw [findWord, findWordFrom_iff hword hne]
  rfl

end

theorem findWord_iff_mem_eth0 :
    findWord (bytes "eth01,xeth0 eth0") (bytes "eth0") = true :=
  (findWord_iff_mem (by decide) (by decide) _).mpr (by decide)

/-! ## WAN units -/

def mwanMax : ℤ := 4

def getWanPrefix (unit : ℤ) : Bytes :=
  if 1 < unit ∧ unit ≤ mwanMax then bytes "wan" ++ decimal unit.toNat
  else bytes "wan"

/-- The number of WAN units, as every loop over them takes it. -/
def mwanNum : ℤ :=
  let num := nvram.int (bytes "mwan_num")
  if num < 1 ∨ mwanMax < num then 1 else num

def wanUnits : List ℤ :=
  (List.range (mwanNum nvram).toNat).map fun (index : ℕ) => (index : ℤ) + 1

def getWanUnitWithValue (suffix value : Bytes) : ℤ :=
  ((wanUnits nvram).find? fun unit =>
    nvram (getWanPrefix unit ++ suffix) = value).getD (-1)

/-- The values of `get_wanx_proto`. -/
inductive WanProto where
  | disabled
  | static
  | dhcp
  | l2tp
  | pppoe
  | pptp
  | ppp3g
  | lte
deriving DecidableEq

def protoNames : List (Bytes × WanProto) :=
  [(bytes "static", .static), (bytes "dhcp", .dhcp), (bytes "l2tp", .l2tp),
    (bytes "pppoe", .pppoe), (bytes "pptp", .pptp), (bytes "ppp3g", .ppp3g),
    (bytes "lte", .lte)]

variable (wanPrefix : Bytes)

def getWanxProto : WanProto :=
  (protoNames.lookup (nvram (wanPrefix ++ bytes "_proto"))).getD .disabled

/-- `mwan_active_num`: the units before the first disabled one. -/
def mwanActiveNum : ℕ :=
  ((wanUnits nvram).takeWhile fun unit =>
    getWanxProto nvram (getWanPrefix unit) ≠ .disabled).length

/-! ## Interfaces of a WAN unit -/

/-- `prefix_nvram_get` -/
def Nvram.ofUnit (suffix : String) : Bytes :=
  nvram (wanPrefix ++ bytes "_" ++ bytes suffix)

def usingDhcpc : Bool :=
  match getWanxProto nvram wanPrefix with
  | .dhcp | .lte => true
  | .l2tp | .pptp | .pppoe => atoi (nvram.ofUnit wanPrefix "pptp_dhcp") ≠ 0
  | .disabled | .static | .ppp3g => false

structure Wanface where
  name : Bytes
  ip : Bytes
deriving DecidableEq

def ifnamsiz : ℕ := 16

/-- `strlcpy` of a name and of an address. -/
def wanface (iface ip : Bytes) : Wanface :=
  ⟨iface.take (ifnamsiz - 1), ip.take 16⟩

/-- The interface of a connection through `pppd`, or all of them before it is
known. -/
def pppIface : Bytes :=
  if nvram.ofUnit wanPrefix "iface" = [] then bytes "ppp+"
  else nvram.ofUnit wanPrefix "iface"

/-- `get_wanfaces`: a tunnel has a second interface, the one below it. -/
def getWanfaces : List Wanface :=
  let proto := getWanxProto nvram wanPrefix
  let ip := nvram.ofUnit wanPrefix "ipaddr"
  if proto = .pptp ∨ proto = .l2tp ∨
      (proto = .pppoe ∧ usingDhcpc nvram wanPrefix) then
    [wanface (pppIface nvram wanPrefix) (nvram.ofUnit wanPrefix "ppp_get_ip"),
      wanface
        (if ip = [] ∨ ip = bytes "0.0.0.0" then []
          else nvram.ofUnit wanPrefix "ifname") ip]
  else
    [wanface
      (if proto = .pppoe ∨ proto = .ppp3g then pppIface nvram wanPrefix
        else nvram.ofUnit wanPrefix "ifname")
      (if proto = .disabled then bytes "0.0.0.0" else ip)]

def getWanface : Bytes :=
  ((getWanfaces nvram wanPrefix).head?.map Wanface.name).getD []

end Tomato64.Shared
