import Mathlib.Data.List.Induction
import Mathlib.Data.List.Nodup

/-!
# A bounded ledger

A ledger keeps one total for each of a bounded number of keys, in the order in
which the keys were entered.  A posting adds to the total of its key.  A key
without a total is entered at the end, and when the ledger is full, the key
that was entered first makes room.
-/

namespace Tomato64.Ledger

open List

variable {Key Amount : Type*}

def keys (entries : List (Key × Amount)) : List Key :=
  entries.map Prod.fst

/-- Enters a key behind the others. -/
def push (size : ℕ) (entries : List (Key × Amount)) (entry : Key × Amount) :
    List (Key × Amount) :=
  if entries.length < size then entries ++ [entry] else entries.tail ++ [entry]

variable {entries : List (Key × Amount)}

theorem mem_keys {key : Key} {sum : Amount}
    (hentry : (key, sum) ∈ entries) : key ∈ keys entries :=
  mem_map.mpr ⟨_, hentry, rfl⟩

theorem length_keys : (keys entries).length = entries.length :=
  length_map _

variable {posting : Key × Amount} {size : ℕ}

theorem keys_push :
    keys (push size entries posting) =
      if entries.length < size then keys entries ++ [posting.1]
      else (keys entries).tail ++ [posting.1] := by
  unfold push keys
  split <;> simp [map_tail]

theorem push_cases {entry : Key × Amount}
    (hentry : entry ∈ push size entries posting) :
    entry = posting ∨ entry ∈ entries := by
  unfold push at hentry
  split at hentry
  · simpa [or_comm] using hentry
  · rcases mem_append.mp hentry with hold | hnew
    · exact .inr (mem_of_mem_tail hold)
    · exact .inl (mem_singleton.mp hnew)

variable [DecidableEq Key] [Add Amount]

/-- Adds to the total of a key. -/
def credit (posting : Key × Amount) (entries : List (Key × Amount)) :
    List (Key × Amount) :=
  entries.map fun entry =>
    if entry.1 = posting.1 then (entry.1, entry.2 + posting.2) else entry

def post (size : ℕ) (entries : List (Key × Amount)) (posting : Key × Amount) :
    List (Key × Amount) :=
  if posting.1 ∈ keys entries then credit posting entries
  else push size entries posting

def ledger (size : ℕ) (postings : List (Key × Amount)) : List (Key × Amount) :=
  postings.foldl (post size) []

theorem ledger_concat (size : ℕ) (postings : List (Key × Amount))
    (posting : Key × Amount) :
    ledger size (postings ++ [posting]) =
      post size (ledger size postings) posting := by
  simp [ledger]

/-! ## Keys -/

section
variable {size : ℕ} {entries : List (Key × Amount)} {posting : Key × Amount}

@[simp]
theorem keys_credit : keys (credit posting entries) = keys entries := by
  unfold keys credit
  rw [map_map]
  refine map_congr_left fun entry _ => ?_
  simp only [Function.comp_apply]
  split <;> rfl

theorem keys_post :
    keys (post size entries posting) =
      if posting.1 ∈ keys entries then keys entries
      else if entries.length < size then keys entries ++ [posting.1]
      else (keys entries).tail ++ [posting.1] := by
  unfold post
  split
  · exact keys_credit
  · exact keys_push

theorem nodup_keys_post (hkeys : (keys entries).Nodup) :
    (keys (post size entries posting)).Nodup := by
  rw [keys_post]
  split
  · exact hkeys
  rename_i hfresh
  have happend : (keys entries ++ [posting.1]).Nodup := by
    rw [nodup_append]
    refine ⟨hkeys, nodup_singleton _, fun key hkey other hother => ?_⟩
    rw [mem_singleton.mp hother]
    rintro rfl
    exact hfresh hkey
  split
  · exact happend
  · exact happend.sublist
      ((tail_sublist _).append (Sublist.refl _))

theorem length_post_le (hsize : 0 < size) (hlength : entries.length ≤ size) :
    (post size entries posting).length ≤ size := by
  unfold post credit push
  split
  · simpa using hlength
  split
  · rw [length_append, length_singleton]
    omega
  · rw [length_append, length_tail, length_singleton]
    omega

end

theorem length_ledger_le (hsize : 0 < size) (postings : List (Key × Amount)) :
    (ledger size postings).length ≤ size := by
  induction postings using reverseRecOn with
  | nil => exact Nat.zero_le _
  | append_singleton postings posting ih =>
    rw [ledger_concat]
    exact length_post_le hsize ih

/-! ## Totals -/

def total (key : Key) (start : Amount) (postings : List (Key × Amount)) :
    Amount :=
  (postings.filter (·.1 = key)).foldl (fun sum posting => sum + posting.2) start

theorem total_concat (key : Key) (start : Amount)
    (postings : List (Key × Amount)) (posting : Key × Amount) :
    total key start (postings ++ [posting]) =
      if posting.1 = key then total key start postings + posting.2
      else total key start postings := by
  unfold total
  rw [filter_append, foldl_append]
  by_cases hkey : posting.1 = key <;> simp [hkey]

/-- The posting that entered a key, with the postings before and behind it:
the key has been kept since, and its total is that of the postings since. -/
structure Account (size : ℕ) (entry : Key × Amount)
    (before : List (Key × Amount)) (amount : Amount)
    (behind : List (Key × Amount)) : Prop where
  fresh : entry.1 ∉ keys (ledger size before)
  kept : ∀ count, entry.1 ∈
    keys (ledger size (before ++ (entry.1, amount) :: behind.take count))
  total_eq : entry.2 = total entry.1 amount behind

section
variable {size : ℕ} {postings : List (Key × Amount)}

theorem credit_cases {entry : Key × Amount}
    (hentry : entry ∈ credit posting entries) :
    ∃ old, (entry.1, old) ∈ entries ∧
      entry.2 = if posting.1 = entry.1 then old + posting.2 else old := by
  obtain ⟨⟨key, old⟩, hold, rfl⟩ := mem_map.mp hentry
  by_cases hkey : key = posting.1
  · simp only [hkey, if_true]
    exact ⟨old, hkey ▸ hold, rfl⟩
  · simp only [if_neg hkey, if_neg (Ne.symm hkey)]
    exact ⟨old, hold, rfl⟩

/-- An account goes on while its key is kept. -/
theorem Account.extend {key : Key} {old new amount : Amount}
    {before behind : List (Key × Amount)}
    (account : Account size (key, old) before amount behind)
    (hkept : key ∈ keys (ledger size
      (before ++ (key, amount) :: (behind ++ [posting]))))
    (htotal : new = if posting.1 = key then old + posting.2 else old) :
    Account size (key, new) before amount (behind ++ [posting]) where
  fresh := account.fresh
  kept := by
    intro count
    by_cases hcount : count ≤ behind.length
    · rw [take_append_of_le_length hcount]
      exact account.kept count
    · rw [take_of_length_le (by
        rw [length_append, length_singleton]
        omega)]
      exact hkept
  total_eq := by
    have hold : old = total key amount behind := account.total_eq
    rw [total_concat, htotal, hold]

theorem exists_account {key : Key} {sum : Amount}
    (hentry : (key, sum) ∈ ledger size postings) :
    ∃ before amount behind,
      postings = before ++ (key, amount) :: behind ∧
        Account size (key, sum) before amount behind := by
  induction postings using reverseRecOn generalizing sum with
  | nil => cases hentry
  | append_singleton postings posting ih =>
    have hkept : key ∈ keys (ledger size (postings ++ [posting])) :=
      mem_keys hentry
    rw [ledger_concat, post] at hentry
    -- An old total keeps its account, which goes on by the new posting.
    have hextend : ∀ old, (key, old) ∈ ledger size postings →
        (sum = if posting.1 = key then old + posting.2 else old) →
        ∃ before amount behind,
          postings ++ [posting] = before ++ (key, amount) :: behind ∧
            Account size (key, sum) before amount behind := by
      intro old hold htotal
      obtain ⟨before, amount, behind, rfl, account⟩ := ih hold
      rw [append_assoc, cons_append] at hkept
      exact ⟨before, amount, behind ++ [posting],
        by rw [append_assoc, cons_append], account.extend hkept htotal⟩
    split at hentry
    · obtain ⟨old, hold, htotal⟩ := credit_cases hentry
      exact hextend old hold htotal
    rename_i hfresh
    rcases push_cases hentry with rfl | hold
    · refine ⟨postings, sum, [], rfl, hfresh, fun count => ?_, rfl⟩
      rw [take_nil]
      exact hkept
    · refine hextend sum hold (if_neg ?_).symm
      rintro rfl
      exact hfresh (mem_keys hold)

end

/-! ## Postings in order -/

/-- The kept keys are the latest ones: they increase, and a key that was dropped
made room for as many later ones as the ledger can hold. -/
structure Latest (rank : Key → ℕ) (size : ℕ) (posted kept : List Key) :
    Prop where
  increasing : kept.Pairwise (rank · < rank ·)
  subset : kept ⊆ posted
  full : ∀ key ∈ posted, key ∉ kept →
    kept.length = size ∧ ∀ other ∈ kept, rank key < rank other

section
variable {rank : Key → ℕ} {size : ℕ} {posted : List Key}
variable {entries : List (Key × Amount)} {posting : Key × Amount}
variable (hrank : Function.Injective rank) (hsize : 0 < size)
  (hlatest : Latest rank size posted (keys entries))
  (hlast : ∀ key ∈ posted, rank key ≤ rank posting.1)
include hrank hsize hlatest hlast

omit [DecidableEq Key] [Add Amount] in
theorem Latest.rank_lt (hfresh : posting.1 ∉ keys entries) :
    ∀ key ∈ posted, rank key < rank posting.1 := by
  intro key hkey
  refine Nat.lt_of_le_of_ne (hlast key hkey) fun hsame => ?_
  obtain rfl := hrank hsame
  obtain ⟨hlength, hall⟩ := hlatest.full posting.1 hkey hfresh
  obtain ⟨other, hother⟩ := exists_mem_of_length_pos (hlength ▸ hsize)
  have hbelow := hlast other (hlatest.subset hother)
  have habove := hall other hother
  omega

omit [DecidableEq Key] [Add Amount] in
/-- The room that a full ledger makes is that of its earliest key. -/
theorem Latest.push (hlength : entries.length ≤ size)
    (hfresh : posting.1 ∉ keys entries) :
    Latest rank size (posted ++ [posting.1])
      (keys (push size entries posting)) := by
  have hless := hlatest.rank_lt hrank hsize hlast hfresh
  have hsorted : (keys entries ++ [posting.1]).Pairwise (rank · < rank ·) := by
    rw [pairwise_append]
    refine ⟨hlatest.increasing, pairwise_singleton _ _, ?_⟩
    intro key hkey other hother
    rw [mem_singleton.mp hother]
    exact hless key (hlatest.subset hkey)
  have hsubset : keys entries ++ [posting.1] ⊆ posted ++ [posting.1] := by
    intro key hkey
    rcases mem_append.mp hkey with hold | hnew
    · exact mem_append_left _ (hlatest.subset hold)
    · exact mem_append_right _ hnew
  rw [keys_push]
  split
  · rename_i hroom
    refine ⟨hsorted, hsubset, fun key hkey hdropped => ?_⟩
    -- Nothing has been dropped as long as there is room.
    rw [mem_append, not_or] at hdropped
    rcases mem_append.mp hkey with hold | hnew
    · have hfull := (hlatest.full key hold hdropped.1).1
      rw [length_keys] at hfull
      omega
    · exact (hdropped.2 hnew).elim
  · rename_i hroom
    have hsublist : ((keys entries).tail ++ [posting.1]).Sublist
        (keys entries ++ [posting.1]) :=
      (tail_sublist _).append (Sublist.refl _)
    refine ⟨hsorted.sublist hsublist,
      fun key hkey => hsubset (hsublist.subset hkey), fun key hkey hdropped => ?_⟩
    rw [mem_append, not_or] at hdropped
    have hold : key ∈ posted := (mem_append.mp hkey).resolve_right hdropped.2
    have hcount : ((keys entries).tail ++ [posting.1]).length = size := by
      rw [length_append, length_tail, length_keys, length_singleton]
      omega
    refine ⟨hcount, fun other hother => ?_⟩
    rcases mem_append.mp hother with hother | hother
    swap
    · rw [mem_singleton.mp hother]
      exact hless key hold
    by_cases hkept : key ∈ keys entries
    swap
    · exact (hlatest.full key hold hkept).2 other
        (mem_of_mem_tail hother)
    -- The key is the head of the ledger, which is the earliest.
    cases hkeys : keys entries with
    | nil => rw [hkeys] at hkept; cases hkept
    | cons head rest =>
      rw [hkeys] at hkept hdropped hother
      have hincreasing := hlatest.increasing
      rw [hkeys, pairwise_cons] at hincreasing
      rcases mem_cons.mp hkept with rfl | hrest
      · exact hincreasing.1 other hother
      · exact (hdropped.1 hrest).elim

theorem Latest.post (hlength : entries.length ≤ size) :
    Latest rank size (posted ++ [posting.1])
      (keys (post size entries posting)) := by
  by_cases hkept : posting.1 ∈ keys entries
  · have hkeys : keys (Ledger.post size entries posting) = keys entries := by
      rw [keys_post, if_pos hkept]
    rw [hkeys]
    refine ⟨hlatest.increasing,
      fun key hkey => mem_append_left _ (hlatest.subset hkey), ?_⟩
    intro key hkey hdropped
    rcases mem_append.mp hkey with hold | hnew
    · exact hlatest.full key hold hdropped
    · exact (hdropped (mem_singleton.mp hnew ▸ hkept)).elim
  · have hpush : Ledger.post size entries posting =
        Ledger.push size entries posting := if_neg hkept
    rw [hpush]
    exact hlatest.push hrank hsize hlast hlength hkept

end

theorem latest_ledger {rank : Key → ℕ} (hrank : Function.Injective rank)
    (hsize : 0 < size) {postings : List (Key × Amount)}
    (hordered : (keys postings).Pairwise (rank · ≤ rank ·)) :
    Latest rank size (keys postings) (keys (ledger size postings)) := by
  induction postings using reverseRecOn with
  | nil =>
    exact ⟨List.Pairwise.nil, fun _ hkey => hkey, fun _ hkey => by cases hkey⟩
  | append_singleton postings posting ih =>
    have hkeys : keys (postings ++ [posting]) =
        keys postings ++ [posting.1] := by
      simp [keys]
    rw [hkeys, pairwise_append] at hordered
    rw [hkeys, ledger_concat]
    exact (ih hordered.1).post hrank hsize
      (fun key hkey => hordered.2.2 key hkey _ (mem_singleton_self _))
      (length_ledger_le hsize postings)

end Tomato64.Ledger
